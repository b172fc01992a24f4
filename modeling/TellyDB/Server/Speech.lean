import TellyDB.Server.Frame

/-!
Owns that a command answers a client that is connected: apart from those that manage
a block, the session commands return no empty text to it.
-/

namespace TellyDB.Server

open Resp

variable {σ D K : Type} {threads : Nat}

/-! ## Texts that are not empty -/

section Texts

variable (message : String) (bytes : Bytes)

@[simp] theorem respErrorMessage_ne_nil : respErrorMessage message ≠ [] :=
  nofun

@[simp] theorem respOkMessage_ne_nil : respOkMessage message ≠ [] :=
  nofun

@[simp] theorem respOk_ne_nil : respOk ≠ [] :=
  respOkMessage_ne_nil "OK"

@[simp] theorem wrongArgumentError_ne_nil : wrongArgumentError message ≠ [] :=
  respErrorMessage_ne_nil _

@[simp] theorem missingSubcommandError_ne_nil : missingSubcommandError message ≠ [] :=
  respErrorMessage_ne_nil _

@[simp] theorem invalidSubcommandError_ne_nil : invalidSubcommandError message ≠ [] :=
  respErrorMessage_ne_nil _

@[simp] theorem createRespString_ne_nil : createRespString bytes ≠ [] :=
  nofun

theorem helloReply_ne_nil (config : Config σ D K) (protover : ProtocolVersion)
    (id : Option Nat) : helloReply config protover id ≠ [] := by
  cases protover <;> exact nofun

end Texts

/-! ## Computations that return a text -/

/-- Unless it crashes, the computation returns a text that is not empty. -/
def Outcome.Speaks (outcome : Outcome σ D K threads) : Prop :=
  ∀ result, outcome = some result → result.2.bytes ≠ []

section Outcomes

variable {state : State σ D K threads}

theorem speaks_none : Outcome.Speaks (none : Outcome σ D K threads) := by
  intro result returned
  cases returned

theorem speaks_literalReply {bytes : Bytes} (nonempty : bytes ≠ []) :
    (literalReply state bytes).Speaks := by
  intro result returned
  cases returned
  exact nonempty

theorem speaks_bufferedReply {slot : Nat} {bytes : Bytes} (nonempty : bytes ≠ []) :
    (bufferedReply state slot bytes).Speaks := by
  intro result returned
  unfold bufferedReply at returned
  split at returned
  · cases returned
    exact nonempty
  · cases returned

theorem speaks_passNoClient {client : Option Nat} {slot : Nat} (own : client = some slot)
    {rest : Nat → Outcome σ D K threads} (connected : (rest slot).Speaks) :
    (passNoClient state client rest).Speaks := by
  rw [own]
  exact connected

theorem speaks_bind {α : Type} {first : Option α} {rest : α → Outcome σ D K threads}
    (speaks : ∀ value, first = some value → (rest value).Speaks) :
    Outcome.Speaks (first >>= rest) := by
  intro result returned
  rcases Option.bind_eq_some_iff.mp returned with ⟨value, had, returned⟩
  exact speaks value had result returned

end Outcomes

/-! ## The session commands -/

section Commands

variable {config : Config σ D K} {state : State σ D K threads} {entry : Entry D} {slot : Nat}

/-- An error or another text that does not change, unless the client is gone. -/
theorem speaks_text (own : entry.client = some slot) {bytes : Bytes} (nonempty : bytes ≠ []) :
    (passNoClient state entry.client fun _ => literalReply state bytes).Speaks :=
  speaks_passNoClient own (speaks_literalReply nonempty)

theorem runSelect_speaks (own : entry.client = some slot) :
    (runSelect config state entry).Speaks := by
  unfold runSelect
  apply speaks_passNoClient own
  split
  · split
    · exact speaks_literalReply (respErrorMessage_ne_nil _)
    · exact speaks_literalReply respOk_ne_nil
  · exact speaks_literalReply (wrongArgumentError_ne_nil _)

theorem authorize_speaks [DecidableEq K] (input : Bytes) (confirmed : Bool) :
    (authorize config state entry slot input confirmed).Speaks := by
  unfold authorize
  split
  · exact speaks_literalReply (respErrorMessage_ne_nil _)
  · split
    · exact speaks_literalReply (respOkMessage_ne_nil _)
    · exact speaks_literalReply respOk_ne_nil

theorem runAuth_speaks [DecidableEq K] (own : entry.client = some slot) :
    (runAuth config state entry).Speaks := by
  unfold runAuth
  apply speaks_passNoClient own
  split
  · exact authorize_speaks _ _
  · exact authorize_speaks _ _
  · exact speaks_literalReply (wrongArgumentError_ne_nil _)

theorem runHello_speaks (own : entry.client = some slot) :
    (runHello config state entry).Speaks := by
  unfold runHello
  apply speaks_passNoClient own
  split
  · split
    · exact speaks_literalReply (respErrorMessage_ne_nil _)
    · exact speaks_bufferedReply (helloReply_ne_nil _ _ _)
  · exact speaks_literalReply (wrongArgumentError_ne_nil _)

/-! ### PWD -/

theorem requestedPermissions_speaks (own : entry.client = some slot) {value : Bytes}
    {rest : Permissions → Outcome σ D K threads}
    (speaks : ∀ permissions, (rest permissions).Speaks) :
    (requestedPermissions state entry value rest).Speaks := by
  unfold requestedPermissions
  apply speaks_bind
  rintro (byte | permissions) _
  · apply speaks_bind
    intro slot _
    exact speaks_bufferedReply nofun
  · apply speaks_bind
    intro held _
    show Outcome.Speaks (if _ then _ else _)
    split
    · exact speaks_text own (respErrorMessage_ne_nil _)
    · exact speaks permissions

theorem addPwd_speaks [DecidableEq K] (own : entry.client = some slot) :
    (addPwd config state entry).Speaks := by
  unfold addPwd
  split
  · apply requestedPermissions_speaks own
    intro permissions
    split
    · exact speaks_literalReply (respErrorMessage_ne_nil _)
    · apply speaks_bind
      rintro ⟨next, added⟩ _
      apply speaks_passNoClient own
      apply speaks_literalReply
      cases added
      · exact respErrorMessage_ne_nil _
      · exact respOk_ne_nil
  · exact speaks_text own (wrongArgumentError_ne_nil _)

theorem editPwd_speaks [DecidableEq K] (own : entry.client = some slot) :
    (editPwd config state entry).Speaks := by
  unfold editPwd
  split
  · split
    · exact speaks_text own (respErrorMessage_ne_nil _)
    · apply requestedPermissions_speaks own
      intro permissions
      exact speaks_passNoClient own (speaks_literalReply respOk_ne_nil)
  · exact speaks_text own (wrongArgumentError_ne_nil _)

theorem removePwd_speaks [DecidableEq K] (own : entry.client = some slot) :
    (removePwd config state entry).Speaks := by
  unfold removePwd
  split
  · apply speaks_bind
    rintro ⟨next, removed⟩ _
    apply speaks_passNoClient own
    apply speaks_literalReply
    cases removed
    · exact respErrorMessage_ne_nil _
    · exact respOk_ne_nil
  · exact speaks_text own (wrongArgumentError_ne_nil _)

theorem pwdSubcommand_speaks [DecidableEq K] (own : entry.client = some slot)
    (subcommand : Bytes) : (pwdSubcommand config state entry subcommand).Speaks := by
  unfold pwdSubcommand
  split
  · exact addPwd_speaks own
  · split
    · exact editPwd_speaks own
    · split
      · exact removePwd_speaks own
      · split
        · exact speaks_passNoClient own (speaks_bufferedReply nofun)
        · exact speaks_text own (invalidSubcommandError_ne_nil _)

theorem runPwd_speaks [DecidableEq K] (own : entry.client = some slot) :
    (runPwd config state entry).Speaks := by
  unfold runPwd
  split
  · exact speaks_text own (missingSubcommandError_ne_nil _)
  · next argument rest _ =>
      apply speaks_bind
      intro result returned
      apply speaks_passNoClient own
      intro again same
      cases same
      exact pwdSubcommand_speaks own (toUppercase argument) result returned

/-! ### CLIENT -/

theorem onTarget_speaks (own : entry.client = some slot)
    {found : Nat → Nat → Outcome σ D K threads}
    (speaks : ∀ id target, (found id target).Speaks) :
    (onTarget config state entry found).Speaks := by
  unfold onTarget
  apply speaks_bind
  intro held _
  show Outcome.Speaks (if _ then _ else _)
  split
  · exact speaks_text own (respErrorMessage_ne_nil _)
  · apply speaks_bind
    intro argument _
    split
    · exact speaks_text own (respErrorMessage_ne_nil _)
    · next id _ =>
        apply speaks_bind
        rintro (_ | target) _
        · exact speaks_passNoClient own (speaks_bufferedReply nofun)
        · exact speaks id target

theorem refuseTarget_speaks (own : entry.client = some slot) {id : Nat} {reason : String} :
    (refuseTarget state entry id reason).Speaks :=
  speaks_passNoClient own (speaks_bufferedReply nofun)

theorem subcommandLock_speaks (own : entry.client = some slot) :
    (subcommandLock config state entry).Speaks := by
  apply onTarget_speaks own
  intro id target
  apply speaks_bind
  intro permissions _
  show Outcome.Speaks (if _ then _ else _)
  split
  · exact refuseTarget_speaks own
  · split
    · exact refuseTarget_speaks own
    · exact speaks_passNoClient own (speaks_literalReply respOk_ne_nil)

theorem subcommandUnlock_speaks (own : entry.client = some slot) :
    (subcommandUnlock config state entry).Speaks := by
  apply onTarget_speaks own
  intro id target
  split
  · exact refuseTarget_speaks own
  · exact speaks_passNoClient own (speaks_literalReply respOk_ne_nil)

theorem subcommandKill_speaks (own : entry.client = some slot) :
    (subcommandKill config state entry).Speaks := by
  apply onTarget_speaks own
  intro id target
  apply speaks_bind
  intro permissions _
  show Outcome.Speaks (if _ then _ else _)
  split
  · exact refuseTarget_speaks own
  · apply speaks_bind
    intro next _
    exact speaks_passNoClient own (speaks_literalReply respOk_ne_nil)

theorem describeClient_speaks {tag : Tag} {target : Nat} :
    (describeClient config state tag slot target).Speaks := by
  apply speaks_bind
  intro permissions _
  apply speaks_bind
  intro res _
  show Outcome.Speaks (if _ then _ else _)
  split
  · exact speaks_bufferedReply (createRespString_ne_nil _)
  · exact speaks_none

theorem subcommandInfo_speaks : (subcommandInfo config state entry slot).Speaks := by
  unfold subcommandInfo
  split
  · exact describeClient_speaks
  · apply speaks_bind
    intro held _
    show Outcome.Speaks (if _ then _ else _)
    split
    · exact speaks_literalReply (respErrorMessage_ne_nil _)
    · split
      · exact speaks_literalReply (respErrorMessage_ne_nil _)
      · apply speaks_bind
        rintro (_ | target) _
        · exact speaks_literalReply (respErrorMessage_ne_nil _)
        · exact describeClient_speaks
  · exact speaks_literalReply (respErrorMessage_ne_nil _)

theorem subcommandList_speaks : (subcommandList config state entry slot).Speaks := by
  apply speaks_bind
  intro held _
  show Outcome.Speaks (if _ then _ else _)
  split
  · exact speaks_literalReply (respErrorMessage_ne_nil _)
  · exact speaks_bufferedReply nofun

theorem subcommandSetinfo_speaks : (subcommandSetinfo state entry).Speaks := by
  unfold subcommandSetinfo
  split
  · split
    · exact speaks_literalReply respOk_ne_nil
    · exact speaks_literalReply (respErrorMessage_ne_nil _)
  · exact speaks_literalReply (wrongArgumentError_ne_nil _)

theorem runClient_speaks (own : entry.client = some slot) :
    (runClient config state entry).Speaks := by
  unfold runClient
  split
  · exact speaks_text own (missingSubcommandError_ne_nil _)
  · dsimp only
    split
    · exact subcommandLock_speaks own
    · split
      · exact subcommandKill_speaks own
      · split
        · exact subcommandUnlock_speaks own
        · apply speaks_passNoClient own
          split
          · exact speaks_bufferedReply nofun
          · split
            · exact subcommandInfo_speaks
            · split
              · exact subcommandList_speaks
              · split
                · exact subcommandSetinfo_speaks
                · exact speaks_literalReply (invalidSubcommandError_ne_nil _)

end Commands

/-! ## Any command -/

/-- A handler that works on the databases returns something to a client: its only
empty reply is that of `PASS_NO_CLIENT`. -/
def DataCommand.AnswersClients (command : DataCommand σ D) : Prop :=
  ∀ entry databases result, entry.protover.isSome → command.run entry databases = some result →
    result.2.bytes ≠ []

/-- The handler returns something to a client. That the session commands do is
`runOn_speaks`. -/
def Command.AnswersClients : Command σ D → Prop
  | .data command => command.AnswersClients
  | _ => True

variable {config : Config σ D K} {state : State σ D K threads} {entry : Entry D} {slot : Nat}

theorem runData_speaks (own : entry.client = some slot) {command : DataCommand σ D}
    (answers : command.AnswersClients) : (runData state entry command).Speaks := by
  unfold runData
  apply speaks_bind
  intro permissions _
  apply speaks_bind
  rintro ⟨databases, response⟩ ran
  have nonempty : response.bytes ≠ [] := by
    refine answers _ _ _ ?_ ran
    rw [own]
    rfl
  show Outcome.Speaks (if response.buffered then _ else _)
  split
  · apply speaks_bind
    intro slot _
    exact speaks_bufferedReply nonempty
  · exact speaks_literalReply nonempty

/-- A command that manages no block answers its client, unless it crashes. -/
theorem runOn_speaks [DecidableEq K] (own : entry.client = some slot) {command : Command σ D}
    (managesNone : command.waitingTx = false) (answers : command.AnswersClients) :
    (command.runOn config state entry).Speaks := by
  cases command with
  | multi => cases managesNone
  | exec => cases managesNone
  | discard => cases managesNone
  | select => exact runSelect_speaks own
  | auth => exact runAuth_speaks own
  | hello => exact runHello_speaks own
  | pwd => exact runPwd_speaks own
  | client => exact runClient_speaks own
  | data command => exact runData_speaks own answers

end TellyDB.Server
