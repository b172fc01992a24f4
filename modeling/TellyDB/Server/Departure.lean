import TellyDB.Commands.ServerCommands
import TellyDB.Server.Effects

/-!
Owns what a command that works on no key does once its client is gone. A PASS_NO_CLIENT lets most
of them pass; BGSAVE answers all the same, and PWD uses the client in some cases.
-/

namespace TellyDB.Server

open Resp

variable {σ D K : Type} {threads : Nat}

/-! ## The commands of the server leave the databases alone -/

/-- The databases are as they were. -/
def Keeps (state next : State σ D K threads) : Prop := next.databases = state.databases

/-- A reply writes no more than a `write_buf`. -/
theorem keeps_of_ensures {state : State σ D K threads} {client : Option Nat}
    {outcome : Outcome σ D K threads} (ensures : outcome.Ensures (Keeps state) client)
    {result : State σ D K threads × Response} (returned : outcome = some result) :
    Keeps state result.1 := by
  obtain ⟨next, keeps, replies⟩ := ensures result returned
  rw [replies.eq]
  exact keeps

section Keeping

variable {config : Config σ D K} {state : State σ D K threads} {entry : Entry D}

theorem Manages.keeps {command : Command σ D} {next : State σ D K threads}
    (manages : Manages config entry state command next) : Keeps state next := by
  cases manages with
  | refused => rfl
  | opened slot own closed => rfl
  | committed slot block own waiting room => rfl
  | discarded slot block own waiting => rfl

theorem addPassword_keeps {client : Option Nat} {data : Bytes} {permissions : Permissions}
    {next : State σ D K threads}
    (added : addPassword config state client data permissions true = some (next, true)) :
    Keeps state next := by
  obtain ⟨claimed, claim, rfl⟩ := addPassword_eq_some added
  show claimed.databases = state.databases
  unfold claimFirstPassword at claim
  split at claim
  · obtain ⟨slot, -, claim⟩ := Option.bind_eq_some_iff.mp claim
    cases claim
    rfl
  · cases claim
    rfl

theorem removePassword_keeps [DecidableEq K] {client : Option Nat} {input : Bytes}
    {result : State σ D K threads × Bool}
    (removed : removePassword config state client input = some result) :
    Keeps state result.1 := by
  unfold removePassword at removed
  split at removed
  · cases removed
    rfl
  · obtain ⟨released, release, removed⟩ := Option.bind_eq_some_iff.mp removed
    cases removed
    show released.databases = state.databases
    unfold releaseLastPassword at release
    split at release
    · obtain ⟨slot, -, release⟩ := Option.bind_eq_some_iff.mp release
      cases release
      rfl
    · cases release
      rfl

theorem forClient_keeps {permissions : Permissions}
    {reply : ProtocolVersion → List Bytes → Option Response} :
    (runData state entry (forClient permissions reply)).Ensures (Keeps state) entry.client := by
  apply runData_ensures
  intro dataEntry databases response ran
  dsimp only [forClient] at ran
  split at ran
  · cases ran
    rfl
  · obtain ⟨answered, -, same⟩ := Option.map_eq_some_iff.mp ran
    cases same
    rfl

/-- Only the commands on keys and SELECT have to do with the databases. -/
theorem runOn_keyless_keeps [DecidableEq K] {command : Command σ D}
    (keyless : ∀ data, command ≠ .data data) (stays : command ≠ .select) :
    (command.runOn config state entry).Ensures (Keeps state) entry.client := by
  have managed : ∀ {command : Command σ D} {outcome : Outcome σ D K threads},
      outcome.Ensures (Manages config entry state command) entry.client →
      outcome.Ensures (Keeps state) entry.client :=
    fun ensures => ensures.mono fun _ manages => manages.keeps
  cases command with
  | auth => exact runAuth_ensures rfl fun _ _ _ _ _ => rfl
  | client => exact runClient_ensures ⟨rfl, fun _ _ => rfl, fun _ _ _ => rfl⟩
  | hello => exact runHello_ensures rfl fun _ _ _ => rfl
  | multi => exact managed fun _ returned => runMulti_manages returned
  | exec => exact managed fun _ returned => runExec_manages returned
  | discard => exact managed fun _ returned => runDiscard_manages returned
  | pwd =>
      apply runPwd_ensures
      exact {
        holds := rfl
        added := fun _ _ _ _ _ _ _ _ _ _ added => addPassword_keeps added
        edited := fun _ _ _ _ _ _ _ _ _ => rfl
        removed := fun _ _ _ _ _ removed => removePassword_keeps removed }
  | select => exact absurd rfl stays
  | data command => exact absurd rfl (keyless command)

theorem runOn_keeps [DecidableEq K] {environment : Environment} {served : ServerCommand} :
    ((served.record environment : Command σ D).runOn config state entry).Ensures (Keeps state)
      entry.client := by
  cases served with
  | auth | client | hello | multi | exec | discard | pwd =>
      apply runOn_keyless_keeps
      · intro data keyed
        cases keyed
      · intro selects
        cases selects
  | bgsave =>
      apply runData_ensures
      intro dataEntry databases response ran
      cases ran
      rfl
  | _ => exact forClient_keeps

end Keeping

/-! ## Handlers without their client -/

/-- The same call once the client is gone. -/
def Entry.departed (entry : Entry D) : Entry D := { entry with client := none }

@[simp] theorem Entry.args_departed (entry : Entry D) : entry.departed.args = entry.args := rfl

/-- Where the handler returns for a client, it returns without one. -/
def Returns (connected departed : Outcome σ D K threads) : Prop :=
  ∀ result, connected = some result → ∃ after, departed = some after

/-- Where the handler returns for a client, it returns nothing without one. -/
def Passes (connected departed : Outcome σ D K threads) : Prop :=
  ∀ result, connected = some result → ∃ after, departed = some (after, Response.empty)

section Rules

variable {state : State σ D K threads} {connected departed : Outcome σ D K threads}

theorem passes_passNoClient {rest : Nat → Outcome σ D K threads} :
    Passes connected (passNoClient state none rest) :=
  fun _ _ => ⟨state, rfl⟩

theorem Passes.returns (passes : Passes connected departed) : Returns connected departed := by
  intro result ran
  obtain ⟨after, returned⟩ := passes result ran
  exact ⟨_, returned⟩

theorem returns_some {after : State σ D K threads × Response} :
    Returns connected (some after) :=
  fun _ _ => ⟨after, rfl⟩

theorem passes_bind {α : Type} {first : Option α} {connected departed : α → Outcome σ D K threads}
    (passes : ∀ value, Passes (connected value) (departed value)) :
    Passes (first >>= connected) (first >>= departed) := by
  intro result ran
  obtain ⟨value, found, ran⟩ := Option.bind_eq_some_iff.mp ran
  rw [found]
  exact passes value result ran

theorem returns_bind {α : Type} {first : Option α} {connected departed : α → Outcome σ D K threads}
    (returns : ∀ value, first = some value → Returns (connected value) (departed value)) :
    Returns (first >>= connected) (first >>= departed) := by
  intro result ran
  obtain ⟨value, found, ran⟩ := Option.bind_eq_some_iff.mp ran
  rw [found]
  exact returns value found result ran

end Rules

section Handlers

variable {config : Config σ D K} {state : State σ D K threads} {entry : Entry D}

/-! ### CLIENT -/

theorem onTarget_passes {found departed : Nat → Nat → Outcome σ D K threads}
    (passes : ∀ id target, Passes (found id target) (departed id target)) :
    Passes (onTarget config state entry found)
      (onTarget config state entry.departed departed) := by
  apply passes_bind
  intro held
  show Passes (if _ then _ else _) (if _ then _ else _)
  split
  · exact passes_passNoClient
  · apply passes_bind
    intro argument
    cases requestedId argument with
    | error message => exact passes_passNoClient
    | ok id =>
        apply passes_bind
        intro target
        cases target with
        | none => exact passes_passNoClient
        | some target => exact passes id target

theorem subcommandLock_passes :
    Passes (subcommandLock config state entry) (subcommandLock config state entry.departed) := by
  apply onTarget_passes
  intro id target
  apply passes_bind
  intro permissions
  show Passes (if _ then _ else if _ then _ else _) (if _ then _ else if _ then _ else _)
  split
  · exact passes_passNoClient
  · split
    · exact passes_passNoClient
    · exact passes_passNoClient

theorem subcommandUnlock_passes :
    Passes (subcommandUnlock config state entry)
      (subcommandUnlock config state entry.departed) := by
  apply onTarget_passes
  intro id target
  split
  · exact passes_passNoClient
  · exact passes_passNoClient

theorem subcommandKill_passes :
    Passes (subcommandKill config state entry) (subcommandKill config state entry.departed) := by
  apply onTarget_passes
  intro id target
  apply passes_bind
  intro permissions
  show Passes (if _ then _ else _) (if _ then _ else _)
  split
  · exact passes_passNoClient
  · exact passes_bind fun _ => passes_passNoClient

theorem runClient_passes :
    Passes (runClient config state entry) (runClient config state entry.departed) := by
  unfold runClient
  rw [Entry.args_departed]
  split
  · exact passes_passNoClient
  · show Passes (if _ then _ else if _ then _ else if _ then _ else _)
      (if _ then _ else if _ then _ else if _ then _ else _)
    split
    · exact subcommandLock_passes
    · split
      · exact subcommandKill_passes
      · split
        · exact subcommandUnlock_passes
        · exact passes_passNoClient

/-! ### PWD -/

/-- The permissions argument of ADD or EDIT has a byte that the error shows to the client. -/
def ShowsPermission (passwords : Passwords K) (value : Bytes) : Prop :=
  ∃ byte, readPermissions passwords value = some (.error byte)

/-- ADD is allowed to add a password where there is none, and has an object for it. -/
def AddsFirst (passwords : Passwords K) (allocated : Bool) (held : Permissions) (value : Bytes) :
    Prop :=
  allocated = true ∧ passwords.list.length = 0 ∧
    ∃ permissions, readPermissions passwords value = some (.ok permissions) ∧
      ~~~held &&& permissions = 0

/-- PWD shows its client an invalid permission, or gives it another password: the first password
takes its permissions from the client, and the last one is replaced. -/
def PwdUsesClient [DecidableEq K] (config : Config σ D K) (passwords : Passwords K)
    (allocated : Bool) (held : Permissions) (args : List Bytes) : Prop :=
  match args with
  | [subcommand, input, value] =>
      toUppercase subcommand = text "ADD" ∧
          (ShowsPermission passwords value ∨ AddsFirst passwords allocated held value) ∨
        toUppercase subcommand = text "EDIT" ∧
          (passwords.wherePassword config input).isSome ∧ ShowsPermission passwords value
  | [subcommand, input] =>
      toUppercase subcommand = text "REMOVE" ∧
        (passwords.wherePassword config input).isSome ∧ passwords.list.length = 1
  | _ => False

theorem requestedPermissions_returns {value : Bytes}
    {connected departed : Permissions → Outcome σ D K threads}
    (valid : ¬ShowsPermission state.passwords value)
    (returns : ∀ held permissions, state.passwords.permissions entry.password = some held →
      readPermissions state.passwords value = some (.ok permissions) →
      ~~~held &&& permissions = 0 → Returns (connected permissions) (departed permissions)) :
    Returns (requestedPermissions state entry value connected)
      (requestedPermissions state entry.departed value departed) := by
  apply returns_bind
  intro read reads
  cases read with
  | error byte => exact absurd ⟨byte, reads⟩ valid
  | ok permissions =>
      apply returns_bind
      intro held holds
      show Returns (if _ then _ else _) (if _ then _ else _)
      split
      · exact passes_passNoClient.returns
      · next allowed => exact returns held permissions holds reads (not_not.mp allowed)

theorem requestedPermissions_uses {value : Bytes} {rest : Permissions → Outcome σ D K threads}
    (shows : ShowsPermission state.passwords value) :
    requestedPermissions state entry.departed value rest = none := by
  obtain ⟨byte, shows⟩ := shows
  rw [requestedPermissions, shows]
  rfl

section Passwords

variable [DecidableEq K] {held : Permissions}

omit [DecidableEq K] in
theorem addPassword_departed (client : Option Nat) (data : Bytes) (permissions : Permissions)
    {allocated : Bool} (others : allocated = true → state.passwords.list.length ≠ 0) :
    addPassword config state client data permissions allocated =
      addPassword config state none data permissions allocated := by
  cases allocated with
  | false => rfl
  | true =>
      rw [addPassword, addPassword, claimFirstPassword, claimFirstPassword, if_neg (others rfl),
        if_neg (others rfl)]

theorem removePassword_departed (client : Option Nat) (input : Bytes)
    (others : (state.passwords.wherePassword config input).isSome →
      state.passwords.list.length ≠ 1) :
    removePassword config state client input = removePassword config state none input := by
  unfold removePassword
  cases found : state.passwords.wherePassword config input with
  | none => rfl
  | some index =>
      rw [found] at others
      dsimp only
      rw [releaseLastPassword, releaseLastPassword, if_neg (others rfl), if_neg (others rfl)]

section Returning

variable (holds : state.passwords.permissions entry.password = some held)
  (passes : ¬PwdUsesClient config state.passwords (config.passwordAllocated entry.tag) held
    entry.args)

include passes

include holds in
theorem addPwd_returns (named : entry.args.head?.map toUppercase = some (text "ADD")) :
    Returns (addPwd config state entry) (addPwd config state entry.departed) := by
  unfold addPwd
  rw [Entry.args_departed]
  split
  · next subcommand data value args =>
      rw [args] at named passes
      have add : toUppercase subcommand = text "ADD" := Option.some.inj named
      apply requestedPermissions_returns fun shows => passes (.inl ⟨add, .inl shows⟩)
      intro granted permissions grants reads allowed
      rw [holds] at grants
      rw [← Option.some.inj grants] at allowed
      have filled : config.passwordAllocated entry.tag = true → state.passwords.list.length ≠ 0 :=
        fun allocated empty =>
          passes (.inl ⟨add, .inr ⟨allocated, empty, permissions, reads, allowed⟩⟩)
      split
      · exact returns_some
      · show Returns (addPassword config state entry.client data permissions
            (config.passwordAllocated entry.tag) >>= _)
          (addPassword config state none data permissions (config.passwordAllocated entry.tag) >>= _)
        rw [addPassword_departed entry.client data permissions filled]
        exact returns_bind fun _ _ => passes_passNoClient.returns
  · exact passes_passNoClient.returns

theorem editPwd_returns (named : entry.args.head?.map toUppercase = some (text "EDIT")) :
    Returns (editPwd config state entry) (editPwd config state entry.departed) := by
  unfold editPwd
  rw [Entry.args_departed]
  split
  · next subcommand input value args =>
      rw [args] at named passes
      have edit : toUppercase subcommand = text "EDIT" := Option.some.inj named
      cases found : state.passwords.wherePassword config input with
      | none => exact passes_passNoClient.returns
      | some target =>
          apply requestedPermissions_returns fun shows =>
            passes (.inr ⟨edit, Option.isSome_of_eq_some found, shows⟩)
          intro granted permissions grants reads allowed
          exact passes_passNoClient.returns
  · exact passes_passNoClient.returns

theorem removePwd_returns (named : entry.args.head?.map toUppercase = some (text "REMOVE")) :
    Returns (removePwd config state entry) (removePwd config state entry.departed) := by
  unfold removePwd
  rw [Entry.args_departed]
  split
  · next subcommand input args =>
      rw [args] at named passes
      have remove : toUppercase subcommand = text "REMOVE" := Option.some.inj named
      show Returns (removePassword config state entry.client input >>= _)
        (removePassword config state none input >>= _)
      rw [removePassword_departed entry.client input
        fun found single => passes ⟨remove, found, single⟩]
      exact returns_bind fun _ _ => passes_passNoClient.returns
  · exact passes_passNoClient.returns

include holds in
theorem pwdSubcommand_returns {subcommand : Bytes}
    (named : entry.args.head?.map toUppercase = some subcommand) :
    Returns (pwdSubcommand config state entry subcommand)
      (pwdSubcommand config state entry.departed subcommand) := by
  unfold pwdSubcommand
  split
  · next same => exact addPwd_returns holds passes (same ▸ named)
  · split
    · next same => exact editPwd_returns passes (same ▸ named)
    · split
      · next same => exact removePwd_returns passes (same ▸ named)
      · split
        · exact passes_passNoClient.returns
        · exact passes_passNoClient.returns

include holds in
theorem runPwd_passes :
    Passes (runPwd config state entry) (runPwd config state entry.departed) := by
  unfold runPwd
  rw [Entry.args_departed]
  split
  · exact passes_passNoClient
  · next argument rest args =>
      intro result ran
      obtain ⟨changed, ran, -⟩ := Option.bind_eq_some_iff.mp ran
      have named : entry.args.head?.map toUppercase = some (toUppercase argument) := by
        rw [args]
        rfl
      obtain ⟨after, returned⟩ := pwdSubcommand_returns holds passes named changed ran
      rw [returned]
      exact ⟨after.1, rfl⟩

end Returning

/-- The client that would lose its permissions is not there. -/
theorem addPwd_first {subcommand data value : Bytes}
    (args : entry.args = [subcommand, data, value])
    (holds : state.passwords.permissions entry.password = some held)
    (first : AddsFirst state.passwords (config.passwordAllocated entry.tag) held value) :
    addPwd config state entry.departed = none := by
  obtain ⟨allocated, empty, permissions, reads, allowed⟩ := first
  have object : config.passwordAllocated entry.departed.tag = true := allocated
  have same : entry.departed.args = [subcommand, data, value] := args
  have absent : state.passwords.wherePassword config data = none := by
    rw [Passwords.wherePassword, List.eq_nil_of_length_eq_zero empty]
    rfl
  rw [addPwd, same]
  dsimp only
  rw [requestedPermissions, reads]
  show (state.passwords.permissions entry.password >>= _) = none
  rw [holds]
  show (if _ then _ else _) = none
  rw [if_neg (not_not.mpr allowed), absent]
  dsimp only
  rw [object, addPassword, claimFirstPassword, if_pos empty]
  rfl

/-- The client that would get the full password is not there. -/
theorem removePwd_last {subcommand input : Bytes} (args : entry.args = [subcommand, input])
    (found : (state.passwords.wherePassword config input).isSome)
    (single : state.passwords.list.length = 1) :
    removePwd config state entry.departed = none := by
  obtain ⟨index, found⟩ := Option.isSome_iff_exists.mp found
  have same : entry.departed.args = [subcommand, input] := args
  rw [removePwd, same]
  dsimp only
  rw [removePassword, found]
  dsimp only
  rw [releaseLastPassword, if_pos single]
  rfl

theorem editPwd_shows {subcommand input value : Bytes}
    (args : entry.args = [subcommand, input, value])
    (found : (state.passwords.wherePassword config input).isSome)
    (shows : ShowsPermission state.passwords value) :
    editPwd config state entry.departed = none := by
  obtain ⟨target, found⟩ := Option.isSome_iff_exists.mp found
  have same : entry.departed.args = [subcommand, input, value] := args
  rw [editPwd, same]
  dsimp only
  rw [found]
  exact requestedPermissions_uses shows

/-- In these cases the handler is lost without its client. -/
theorem runPwd_uses (holds : state.passwords.permissions entry.password = some held)
    (uses : PwdUsesClient config state.passwords (config.passwordAllocated entry.tag) held
      entry.args) :
    runPwd config state entry.departed = none := by
  have lost : ∀ {subcommand : Bytes} {rest : List Bytes}, entry.args = subcommand :: rest →
      pwdSubcommand config state entry.departed (toUppercase subcommand) = none →
      runPwd config state entry.departed = none := by
    intro subcommand rest args crashes
    have same : entry.departed.args = subcommand :: rest := args
    rw [runPwd, same]
    dsimp only
    rw [crashes]
    rfl
  unfold PwdUsesClient at uses
  split at uses
  · next subcommand input value args =>
      apply lost args
      obtain ⟨add, shows | first⟩ | ⟨edit, found, shows⟩ := uses
      · have same : entry.departed.args = [subcommand, input, value] := args
        rw [add, pwdSubcommand, if_pos rfl, addPwd, same]
        exact requestedPermissions_uses shows
      · rw [add, pwdSubcommand, if_pos rfl]
        exact addPwd_first args holds first
      · rw [edit, pwdSubcommand, if_neg (by decide), if_pos rfl]
        exact editPwd_shows args found shows
  · next subcommand input args =>
      obtain ⟨remove, found, single⟩ := uses
      apply lost args
      rw [remove, pwdSubcommand, if_neg (by decide), if_neg (by decide), if_pos rfl]
      exact removePwd_last args found single
  · cases uses

end Passwords

/-! ### All handlers -/

theorem forClient_passes {permissions : Permissions}
    {reply : ProtocolVersion → List Bytes → Option Response} :
    Passes (runData state entry (forClient permissions reply))
      (runData state entry.departed (forClient permissions reply)) := by
  intro result ran
  obtain ⟨held, holds, -⟩ := Option.bind_eq_some_iff.mp ran
  refine ⟨state, ?_⟩
  have same : state.passwords.permissions entry.departed.password = some held := holds
  rw [runData, same]
  rfl

/-- BGSAVE answers a client that is gone, and PWD uses it. -/
def ServerCommand.UsesClient [DecidableEq K] (config : Config σ D K) (passwords : Passwords K)
    (held : Permissions) (served : ServerCommand) (args : List Bytes) (tag : Tag) : Prop :=
  match served with
  | bgsave => True
  | pwd => PwdUsesClient config passwords (config.passwordAllocated tag) held args
  | _ => False

theorem runOn_passes [DecidableEq K] {environment : Environment} {served : ServerCommand}
    {held : Permissions} (holds : state.passwords.permissions entry.password = some held)
    (passes : ¬served.UsesClient config state.passwords held entry.args entry.tag) :
    Passes ((served.record environment : Command σ D).runOn config state entry)
      ((served.record environment : Command σ D).runOn config state entry.departed) := by
  cases served with
  | auth | hello | multi | exec | discard => exact fun _ _ => ⟨state, rfl⟩
  | client => exact runClient_passes
  | pwd => exact runPwd_passes holds passes
  | bgsave => exact absurd trivial passes
  | _ => exact forClient_passes

theorem bgsaveReply_eq (environment : Environment) :
    ∃ bytes, bgsaveReply environment = .literal bytes ∧ bytes.length ≠ 0 := by
  unfold bgsaveReply
  split
  · exact ⟨_, rfl, by decide⟩
  · split
    · exact ⟨_, rfl, by decide⟩
    · exact ⟨_, rfl, by decide⟩
    · exact ⟨_, rfl, by decide⟩

theorem runOn_uses [DecidableEq K] {environment : Environment} {served : ServerCommand}
    {held : Permissions} (holds : state.passwords.permissions entry.password = some held)
    (uses : served.UsesClient config state.passwords held entry.args entry.tag)
    {result : State σ D K threads × Response}
    (ran : (served.record environment : Command σ D).runOn config state entry.departed =
      some result) : result.2.bytes.length ≠ 0 := by
  cases served with
  | bgsave =>
      obtain ⟨bytes, replies, some_⟩ := bgsaveReply_eq environment
      obtain ⟨granted, -, ran⟩ := Option.bind_eq_some_iff.mp ran
      rw [Option.bind_eq_bind, Option.bind_some] at ran
      dsimp only at ran
      rw [replies] at ran
      cases ran
      exact some_
  | pwd =>
      rw [ServerCommand.record, Command.runOn, runPwd_uses holds uses] at ran
      cases ran
  | _ => cases uses

end Handlers

end TellyDB.Server
