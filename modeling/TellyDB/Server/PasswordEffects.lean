import TellyDB.Server.Frame

/-!
Owns what one command may do to the passwords: AUTH gives its client a listed
password, PWD ADD, PWD EDIT and PWD REMOVE change the list, and every other command
leaves the passwords and who uses them alone.
-/

namespace TellyDB.Server

open Resp Lib

variable {σ D K : Type} {threads : Nat}

/-- The passwords and who uses them stay; clients may go. -/
structure SamePasswords (state next : State σ D K threads) : Prop where
  passwords : next.passwords = state.passwords
  password : ∀ slot, (next.clients slot).password = (state.clients slot).password
  id : ∀ slot, (next.clients slot).id = (state.clients slot).id ∨ (next.clients slot).id = none

/-- What a command may do to the passwords. -/
inductive PasswordStep [DecidableEq K] (config : Config σ D K) (entry : Entry D)
    (state : State σ D K threads) : Command σ D → State σ D K threads → Prop
  | kept (command : Command σ D) (next : State σ D K threads) (same : SamePasswords state next) :
      PasswordStep config entry state command next
  | authorized (slot index : Nat) (input : Bytes) (own : entry.client = some slot)
      (found : state.passwords.wherePassword config input = some index) :
      PasswordStep config entry state .auth (state.updateClient slot fun client =>
        { client with password := state.passwords.list.getD index 0 })
  | added (data value : Bytes) (held permissions : Permissions) (next : State σ D K threads)
      (asked : pwdArguments "ADD" (.pwd : Command σ D) entry.args = some [data, value])
      (absent : state.passwords.wherePassword config data = none)
      (holds : state.passwords.permissions entry.password = some held)
      (allowed : ~~~held &&& permissions = 0)
      (allocated : config.passwordAllocated entry.tag = true)
      (added : addPassword config state entry.client data permissions true = some (next, true)) :
      PasswordStep config entry state .pwd next
  | edited (input value : Bytes) (target : Nat) (held permissions : Permissions)
      (asked : pwdArguments "EDIT" (.pwd : Command σ D) entry.args = some [input, value])
      (found : state.passwords.wherePassword config input = some target)
      (holds : state.passwords.permissions entry.password = some held)
      (allowed : ~~~held &&& permissions = 0) :
      PasswordStep config entry state .pwd { state with
        passwords := state.passwords.setPermissions (state.passwords.list.getD target 0)
          permissions }
  | removed (input : Bytes) (index : Nat) (next : State σ D K threads)
      (asked : pwdArguments "REMOVE" (.pwd : Command σ D) entry.args = some [input])
      (found : state.passwords.wherePassword config input = some index)
      (removed : removePassword config state entry.client input = some (next, true)) :
      PasswordStep config entry state .pwd next

section Commands

variable {config : Config σ D K} {state next : State σ D K threads} {entry : Entry D}

theorem SamePasswords.refl : SamePasswords state state :=
  ⟨rfl, fun _ => rfl, fun _ => .inl rfl⟩

/-- A change of one client that keeps its password, and its id unless it goes. -/
theorem SamePasswords.updateClient {slot : Nat} {update : Client σ D → Client σ D}
    (password : ∀ client, (update client).password = client.password)
    (id : ∀ client, (update client).id = client.id ∨ (update client).id = none) :
    SamePasswords state (state.updateClient slot update) := by
  refine ⟨rfl, ?_, ?_⟩
  · intro other
    simp only [State.updateClient, Function.update_apply]
    split
    · next here => rw [password, here]
    · rfl
  · intro other
    simp only [State.updateClient, Function.update_apply]
    split
    · next here => rw [here]; exact id _
    · exact .inl rfl

theorem SamePasswords.of_eq (passwords : next.passwords = state.passwords)
    (clients : next.clients = state.clients) : SamePasswords state next := by
  refine ⟨passwords, fun slot => ?_, fun slot => .inl ?_⟩
  · rw [clients]
  · rw [clients]

/-! ## The commands that keep them -/

theorem Manages.samePasswords {command : Command σ D}
    (manages : Manages config entry state command next) : SamePasswords state next := by
  have waiting : ∀ (slot : Nat) (block : Option (WaitingBlock σ D)),
      SamePasswords state (state.setWaitingBlock slot block) :=
    fun slot block => SamePasswords.updateClient (fun _ => rfl) fun _ => .inl rfl
  cases manages with
  | refused => exact SamePasswords.refl
  | opened slot own closed => exact { waiting slot _ with }
  | committed slot block own held room => exact { waiting slot none with }
  | discarded slot block own held => exact { waiting slot none with }

theorem runSelect_samePasswords :
    (runSelect config state entry).Ensures (SamePasswords state) entry.client := by
  apply runSelect_ensures SamePasswords.refl
  intro slot databases database _
  have selected : SamePasswords state
      (state.updateClient slot fun client => { client with database := database }) :=
    SamePasswords.updateClient (fun _ => rfl) fun _ => .inl rfl
  exact { selected with }

theorem runHello_samePasswords :
    (runHello config state entry).Ensures (SamePasswords state) entry.client := by
  apply runHello_ensures SamePasswords.refl
  intro slot protover _
  exact SamePasswords.updateClient (fun _ => rfl) fun _ => .inl rfl

theorem runData_samePasswords {command : DataCommand σ D} :
    (runData state entry command).Ensures (SamePasswords state) entry.client :=
  runData_ensures fun _ _ _ _ => SamePasswords.of_eq rfl rfl

theorem runClient_samePasswords :
    (runClient config state entry).Ensures (SamePasswords state) entry.client := by
  apply runClient_ensures
  refine ⟨SamePasswords.refl, ?_, ?_⟩
  · intro target locked
    exact SamePasswords.updateClient (fun _ => rfl) fun _ => .inl rfl
  · intro _ found count
    have removed : SamePasswords state (state.updateClient found Client.removed) :=
      SamePasswords.updateClient (fun _ => rfl) fun _ => .inr rfl
    exact { removed with }

/-! ## The commands that change them -/

variable [DecidableEq K]

theorem runAuth_passwordStep :
    (runAuth config state entry).Ensures (PasswordStep config entry state .auth)
      entry.client :=
  runAuth_ensures (.kept _ _ SamePasswords.refl) fun slot input index own found =>
    .authorized slot index input own found

theorem runPwd_passwordStep :
    (runPwd config state entry).Ensures (PasswordStep config entry state .pwd)
      entry.client := by
  apply runPwd_ensures
  exact {
    holds := .kept _ _ SamePasswords.refl
    added := fun data value held permissions next asked absent holds allowed allocated added =>
      .added data value held permissions next asked absent holds allowed allocated added
    edited := fun input value target held permissions asked found holds allowed =>
      .edited input value target held permissions asked found holds allowed
    removed := fun input index next asked found removed =>
      .removed input index next asked found removed }

/-- What any command does to the passwords. -/
theorem runOn_passwordStep {command : Command σ D} :
    (command.runOn config state entry).Ensures (PasswordStep config entry state command)
      entry.client := by
  have kept : ∀ {outcome : Outcome σ D K threads},
      outcome.Ensures (SamePasswords state) entry.client →
      outcome.Ensures (PasswordStep config entry state command) entry.client :=
    fun ensures => ensures.mono fun next same => .kept command next same
  have managed : ∀ {outcome : Outcome σ D K threads},
      (∀ result, outcome = some result → ∃ next, Manages config entry state command next ∧
        Replies entry.client next result) →
      outcome.Ensures (PasswordStep config entry state command) entry.client := by
    intro outcome manages result returned
    rcases manages result returned with ⟨next, does, replies⟩
    exact ⟨next, .kept command next does.samePasswords, replies⟩
  cases command with
  | multi => exact managed fun _ => runMulti_manages
  | exec => exact managed fun _ => runExec_manages
  | discard => exact managed fun _ => runDiscard_manages
  | select => exact kept runSelect_samePasswords
  | auth => exact runAuth_passwordStep
  | hello => exact kept runHello_samePasswords
  | pwd => exact runPwd_passwordStep
  | client => exact kept runClient_samePasswords
  | data command => exact kept runData_samePasswords

end Commands

end TellyDB.Server
