import TellyDB.Commands.SessionCommands

/-!
Owns what a command has reached when it replies: the rules for a property of the state, and for
each command which changes the property must survive.
-/

namespace TellyDB.Server

open Resp

variable {σ D K : Type} {threads : Nat}

/-! ## How a command replies -/

/-- The last thing a command does: return a text that does not change, or write
one into the `write_buf` of its client. -/
inductive Replies (client : Option Nat) (state : State σ D K threads) :
    State σ D K threads × Response → Prop
  | literal (bytes : Bytes) : Replies client state (state, Response.literal bytes)
  | buffered (slot : Nat) (bytes : Bytes) (own : client = some slot) :
      Replies client state (state.store (state.clients slot).writeBuf bytes, ⟨bytes, true⟩)

/-- A reply changes no more than a `write_buf`. -/
theorem Replies.eq {client : Option Nat} {state : State σ D K threads}
    {result : State σ D K threads × Response} (replies : Replies client state result) :
    result.1 = { state with writeBufs := result.1.writeBufs } := by
  cases replies with
  | literal bytes => rfl
  | buffered slot bytes own => rfl

/-- A computation that, if it does not crash, reaches such a state and then replies. -/
def Outcome.Ensures (reached : State σ D K threads → Prop) (client : Option Nat)
    (outcome : Outcome σ D K threads) : Prop :=
  ∀ result, outcome = some result → ∃ next, reached next ∧ Replies client next result

section Rules

variable {reached other : State σ D K threads → Prop} {client : Option Nat}
  {state : State σ D K threads}

theorem ensures_none : Outcome.Ensures reached client none := by
  intro result returned
  cases returned

theorem ensures_literalReply {bytes : Bytes} (holds : reached state) :
    (literalReply state bytes).Ensures reached client := by
  intro result returned
  cases returned
  exact ⟨state, holds, .literal bytes⟩

theorem ensures_bufferedReply {slot : Nat} {bytes : Bytes} (holds : reached state)
    (own : client = some slot) : (bufferedReply state slot bytes).Ensures reached client := by
  intro result returned
  unfold bufferedReply at returned
  split at returned
  · cases returned
    exact ⟨state, holds, .buffered slot bytes own⟩
  · cases returned

theorem passNoClient_cases {rest : Nat → Outcome σ D K threads}
    {result : State σ D K threads × Response}
    (returned : passNoClient state client rest = some result) :
    client = none ∧ result = (state, Response.empty) ∨
      ∃ slot, client = some slot ∧ rest slot = some result := by
  cases client with
  | none =>
      cases returned
      exact .inl ⟨rfl, rfl⟩
  | some slot => exact .inr ⟨slot, rfl, returned⟩

theorem ensures_passNoClient {rest : Nat → Outcome σ D K threads} (holds : reached state)
    (connected : ∀ slot, client = some slot → (rest slot).Ensures reached client) :
    (passNoClient state client rest).Ensures reached client := by
  intro result returned
  rcases passNoClient_cases returned with ⟨_, rfl⟩ | ⟨slot, own, returned⟩
  · exact ⟨state, holds, .literal []⟩
  · exact connected slot own result returned

theorem ensures_bind {α : Type} {first : Option α} {rest : α → Outcome σ D K threads}
    (ensures : ∀ value, first = some value → (rest value).Ensures reached client) :
    Outcome.Ensures reached client (first >>= rest) := by
  intro result returned
  rcases Option.bind_eq_some_iff.mp returned with ⟨value, first, returned⟩
  exact ensures value first result returned

theorem Outcome.Ensures.mono {outcome : Outcome σ D K threads}
    (ensures : outcome.Ensures reached client)
    (implies : ∀ state, reached state → other state) : outcome.Ensures other client := by
  intro result returned
  rcases ensures result returned with ⟨next, holds, replies⟩
  exact ⟨next, implies next holds, replies⟩

end Rules

/-! ## SELECT, AUTH, HELLO and the data commands -/

section Commands

variable {config : Config σ D K} {state : State σ D K threads} {entry : Entry D}
  {reached : State σ D K threads → Prop}

theorem runSelect_ensures (holds : reached state)
    (selected : ∀ slot databases database, entry.client = some slot →
      reached (State.updateClient { state with databases := databases } slot
        fun client => { client with database := database })) :
    (runSelect config state entry).Ensures reached entry.client := by
  unfold runSelect
  apply ensures_passNoClient holds
  intro slot own
  split
  · split
    · exact ensures_literalReply holds
    · next databases database _ =>
        exact ensures_literalReply (selected slot databases database own)
  · exact ensures_literalReply holds

theorem runAuth_ensures [DecidableEq K] (holds : reached state)
    (authorized : ∀ slot input index, entry.client = some slot →
      state.passwords.wherePassword config input = some index →
      reached (state.updateClient slot fun client =>
        { client with password := state.passwords.list.getD index 0 })) :
    (runAuth config state entry).Ensures reached entry.client := by
  unfold runAuth
  apply ensures_passNoClient holds
  intro slot own
  have authorizes : ∀ (input : Bytes) (confirmed : Bool),
      (authorize config state entry slot input confirmed).Ensures reached entry.client := by
    intro input confirmed
    unfold authorize
    split
    · exact ensures_literalReply holds
    · next target found =>
        split
        · exact ensures_literalReply holds
        · exact ensures_literalReply (authorized slot input target own found)
  split
  · exact authorizes _ _
  · exact authorizes _ _
  · exact ensures_literalReply holds

theorem runHello_ensures (holds : reached state)
    (spoken : ∀ slot protover, entry.client = some slot →
      reached (state.updateClient slot fun client => { client with protover := protover })) :
    (runHello config state entry).Ensures reached entry.client := by
  unfold runHello
  apply ensures_passNoClient holds
  intro slot own
  split
  · split
    · exact ensures_literalReply holds
    · next protover _ => exact ensures_bufferedReply (spoken slot protover own) own
  · exact ensures_literalReply holds

theorem runData_ensures {command : DataCommand σ D}
    (left : ∀ dataEntry databases response,
      command.run dataEntry state.databases = some (databases, response) →
        reached { state with databases := databases }) :
    (runData state entry command).Ensures reached entry.client := by
  unfold runData
  apply ensures_bind
  intro permissions _
  apply ensures_bind
  rintro ⟨databases, response⟩ ran
  have holds := left _ databases response ran
  show Outcome.Ensures _ _ (if response.buffered then _ else _)
  split
  · apply ensures_bind
    intro slot own
    exact ensures_bufferedReply holds own
  · exact ensures_literalReply holds

/-! ## PWD -/

/-- The arguments of PWD ADD, EDIT and REMOVE with their subcommand spelled so. -/
def pwdArguments (subcommand : String) : Command σ D → List Bytes → Option (List Bytes)
  | .pwd, argument :: rest => if toUppercase argument = text subcommand then some rest else none
  | _, _ => none

/-- The property survives what PWD may do to the passwords. -/
structure SurvivesPwd [DecidableEq K] (config : Config σ D K) (state : State σ D K threads)
    (entry : Entry D) (reached : State σ D K threads → Prop) : Prop where
  holds : reached state
  added : ∀ data value held permissions next,
    pwdArguments "ADD" (.pwd : Command σ D) entry.args = some [data, value] →
    state.passwords.wherePassword config data = none →
    state.passwords.permissions entry.password = some held → ~~~held &&& permissions = 0 →
    config.passwordAllocated entry.tag = true →
    addPassword config state entry.client data permissions true = some (next, true) →
      reached next
  edited : ∀ input value target held permissions,
    pwdArguments "EDIT" (.pwd : Command σ D) entry.args = some [input, value] →
    state.passwords.wherePassword config input = some target →
    state.passwords.permissions entry.password = some held → ~~~held &&& permissions = 0 →
    reached { state with
      passwords := state.passwords.setPermissions (state.passwords.list.getD target 0)
        permissions }
  removed : ∀ input index next,
    pwdArguments "REMOVE" (.pwd : Command σ D) entry.args = some [input] →
    state.passwords.wherePassword config input = some index →
    removePassword config state entry.client input = some (next, true) → reached next

theorem requestedPermissions_ensures {value : Bytes} {rest : Permissions → Outcome σ D K threads}
    (holds : reached state)
    (ensures : ∀ held permissions, state.passwords.permissions entry.password = some held →
      ~~~held &&& permissions = 0 → (rest permissions).Ensures reached entry.client) :
    (requestedPermissions state entry value rest).Ensures reached entry.client := by
  unfold requestedPermissions
  apply ensures_bind
  rintro (byte | permissions) _
  · apply ensures_bind
    intro slot own
    exact ensures_bufferedReply holds own
  · apply ensures_bind
    intro held has
    show Outcome.Ensures _ _ (if _ then _ else _)
    split
    · exact ensures_passNoClient holds fun _ _ => ensures_literalReply holds
    · next allowed => exact ensures held permissions has (not_not.mp allowed)

theorem pwdArguments_eq {subcommand : String} {argument : Bytes} {rest : List Bytes}
    (args : entry.args = argument :: rest)
    (named : entry.args.head?.map toUppercase = some (text subcommand)) :
    pwdArguments subcommand (.pwd : Command σ D) entry.args = some rest := by
  rw [args] at named ⊢
  exact if_pos (Option.some.inj named)

/-- Without an object for the password nothing changes. -/
theorem addPassword_returned {client : Option Nat} {data : Bytes} {permissions : Permissions}
    {allocated added : Bool} {next : State σ D K threads}
    (returned : addPassword config state client data permissions allocated = some (next, added)) :
    (allocated = false ∧ next = state ∧ added = false) ∨ (allocated = true ∧ added = true) := by
  unfold addPassword at returned
  split at returned
  · next failed =>
      cases returned
      exact .inl ⟨failed, rfl, rfl⟩
  · next succeeded =>
      rcases Option.bind_eq_some_iff.mp returned with ⟨claimed, _, returned⟩
      cases returned
      exact .inr ⟨Bool.eq_true_of_not_eq_false succeeded, rfl⟩

section Passwords

variable [DecidableEq K] (survives : SurvivesPwd config state entry reached)

include survives

theorem addPwd_ensures (named : entry.args.head?.map toUppercase = some (text "ADD")) :
    (addPwd config state entry).Ensures reached entry.client := by
  unfold addPwd
  split
  · next data value args =>
      apply requestedPermissions_ensures survives.holds
      intro held permissions holds allowed
      split
      · exact ensures_literalReply survives.holds
      · next absent =>
          apply ensures_bind
          rintro ⟨next, added⟩ returned
          have step : reached next := by
            rcases addPassword_returned returned with ⟨_, same, _⟩ | ⟨allocated, rfl⟩
            · rw [same]
              exact survives.holds
            · rw [allocated] at returned
              exact survives.added data value held permissions next
                (pwdArguments_eq args named) absent holds allowed allocated returned
          exact ensures_passNoClient step fun _ _ => ensures_literalReply step
  · exact ensures_passNoClient survives.holds fun _ _ => ensures_literalReply survives.holds

theorem editPwd_ensures (named : entry.args.head?.map toUppercase = some (text "EDIT")) :
    (editPwd config state entry).Ensures reached entry.client := by
  unfold editPwd
  split
  · next input value args =>
      split
      · exact ensures_passNoClient survives.holds fun _ _ => ensures_literalReply survives.holds
      · next target found =>
          apply requestedPermissions_ensures survives.holds
          intro held permissions holds allowed
          have step := survives.edited input value target held permissions
            (pwdArguments_eq args named) found holds allowed
          exact ensures_passNoClient step fun _ _ => ensures_literalReply step
  · exact ensures_passNoClient survives.holds fun _ _ => ensures_literalReply survives.holds

theorem removePwd_ensures (named : entry.args.head?.map toUppercase = some (text "REMOVE")) :
    (removePwd config state entry).Ensures reached entry.client := by
  unfold removePwd
  split
  · next input args =>
      apply ensures_bind
      rintro ⟨next, done⟩ removed
      have step : reached next := by
        cases found : state.passwords.wherePassword config input with
        | none =>
            unfold removePassword at removed
            rw [found] at removed
            cases removed
            exact survives.holds
        | some index =>
            have succeeded : done = true := by
              unfold removePassword at removed
              rw [found] at removed
              rcases Option.bind_eq_some_iff.mp removed with ⟨released, _, removed⟩
              cases removed
              rfl
            subst succeeded
            exact survives.removed input index next (pwdArguments_eq args named) found removed
      exact ensures_passNoClient step fun _ _ => ensures_literalReply step
  · exact ensures_passNoClient survives.holds fun _ _ => ensures_literalReply survives.holds

theorem pwdSubcommand_ensures {subcommand : Bytes}
    (named : entry.args.head?.map toUppercase = some subcommand) :
    (pwdSubcommand config state entry subcommand).Ensures reached entry.client := by
  unfold pwdSubcommand
  split
  · next same => exact addPwd_ensures survives (same ▸ named)
  · split
    · next same => exact editPwd_ensures survives (same ▸ named)
    · split
      · next same => exact removePwd_ensures survives (same ▸ named)
      · split
        · exact ensures_passNoClient survives.holds
            fun _ own => ensures_bufferedReply survives.holds own
        · exact ensures_passNoClient survives.holds
            fun _ _ => ensures_literalReply survives.holds

theorem runPwd_ensures : (runPwd config state entry).Ensures reached entry.client := by
  unfold runPwd
  split
  · exact ensures_passNoClient survives.holds fun _ _ => ensures_literalReply survives.holds
  · next argument rest args =>
    intro result returned
    have named : entry.args.head?.map toUppercase = some (toUppercase argument) := by
      rw [args]
      rfl
    rcases Option.bind_eq_some_iff.mp returned with ⟨⟨changed, response⟩, ran, passed⟩
    rcases pwdSubcommand_ensures survives named _ ran with ⟨next, step, replies⟩
    refine ⟨next, step, ?_⟩
    -- the reply is dropped where nobody reads it
    rcases passNoClient_cases passed with ⟨gone, rfl⟩ | ⟨slot, own, passed⟩
    · rw [gone] at replies ⊢
      cases replies with
      | literal bytes => exact .literal []
      | buffered slot bytes own => cases own
    · cases passed
      exact replies

end Passwords

/-! ## CLIENT -/

theorem getClientLoop_some {maxClients id start fuel at_ found : Nat}
    {clients : Nat → Client σ D}
    (looked : getClientLoop maxClients clients id start fuel at_ = some (some found)) :
    (clients found).id = some id := by
  induction fuel generalizing at_ with
  | zero => cases looked
  | succ fuel inductionHypothesis =>
      unfold getClientLoop at looked
      split at looked
      · cases looked
      · next occupant occupied =>
          split at looked
          · next same =>
              cases looked
              rw [occupied, same]
          · split at looked
            · exact inductionHypothesis looked
            · split at looked
              · cases looked
              · exact inductionHypothesis looked

/-- The slot `get_client` finds holds the client with that id. -/
theorem getClient_some {maxClients id found : Nat} {clients : Nat → Client σ D}
    (looked : getClient maxClients clients id = some (some found)) :
    (clients found).id = some id := by
  unfold getClient at looked
  split at looked
  · cases looked
  · split at looked
    · cases looked
    · exact getClientLoop_some looked

/-- A connection that ends leaves a slot that had its id. -/
theorem terminateConnection_eq {slot : Nat} {next : State σ D K threads}
    (terminated : terminateConnection config state slot = some next) :
    ∃ id found, (state.clients slot).id = some id ∧ (state.clients found).id = some id ∧
      next = { state.updateClient found Client.removed with
        clientCount := state.clientCount - 1 } := by
  unfold terminateConnection at terminated
  rcases Option.bind_eq_some_iff.mp terminated with ⟨id, occupied, terminated⟩
  rcases Option.bind_eq_some_iff.mp terminated with ⟨⟨left, removed⟩, remove, terminated⟩
  rcases Option.bind_eq_some_iff.mp remove with ⟨found, looked, remove⟩
  cases found with
  | none =>
      cases remove
      cases terminated
  | some found =>
      cases remove
      cases terminated
      exact ⟨id, found, occupied, getClient_some looked, rfl⟩

/-- The subcommand is CLIENT KILL. -/
def killsClient : Command σ D → List Bytes → Bool
  | .client, argument :: _ => decide (toUppercase argument = text "KILL")
  | _, _ => false

/-- The property survives what CLIENT may do to the clients. -/
structure SurvivesClient (state : State σ D K threads) (args : List Bytes)
    (reached : State σ D K threads → Prop) : Prop where
  holds : reached state
  locked : ∀ target locked,
    reached (state.updateClient target fun client => { client with locked := locked })
  killed : killsClient (.client : Command σ D) args = true → ∀ found count,
    reached { state.updateClient found Client.removed with clientCount := count }

theorem onTarget_ensures {found : Nat → Nat → Outcome σ D K threads} (holds : reached state)
    (ensures : ∀ id target, (found id target).Ensures reached entry.client) :
    (onTarget config state entry found).Ensures reached entry.client := by
  unfold onTarget
  apply ensures_bind
  intro held _
  show Outcome.Ensures _ _ (if _ then _ else _)
  split
  · exact ensures_passNoClient holds fun _ _ => ensures_literalReply holds
  · apply ensures_bind
    intro argument _
    cases requestedId argument with
    | error message => exact ensures_passNoClient holds fun _ _ => ensures_literalReply holds
    | ok id =>
        apply ensures_bind
        rintro (_ | target) _
        · exact ensures_passNoClient holds fun _ own => ensures_bufferedReply holds own
        · exact ensures id target

theorem refuseTarget_ensures {id : Nat} {reason : String} (holds : reached state) :
    (refuseTarget state entry id reason).Ensures reached entry.client :=
  ensures_passNoClient holds fun _ own => ensures_bufferedReply holds own

theorem subcommandLock_ensures (survives : SurvivesClient state entry.args reached) :
    (subcommandLock config state entry).Ensures reached entry.client := by
  apply onTarget_ensures survives.holds
  intro id target
  apply ensures_bind
  intro permissions _
  show Outcome.Ensures _ _ (if _ then _ else if _ then _ else _)
  split
  · exact refuseTarget_ensures survives.holds
  · split
    · exact refuseTarget_ensures survives.holds
    · have locked := survives.locked target true
      exact ensures_passNoClient locked fun _ _ => ensures_literalReply locked

theorem subcommandUnlock_ensures (survives : SurvivesClient state entry.args reached) :
    (subcommandUnlock config state entry).Ensures reached entry.client := by
  apply onTarget_ensures survives.holds
  intro id target
  split
  · exact refuseTarget_ensures survives.holds
  · have unlocked := survives.locked target false
    exact ensures_passNoClient unlocked fun _ _ => ensures_literalReply unlocked

theorem subcommandKill_ensures (survives : SurvivesClient state entry.args reached)
    (kills : killsClient (.client : Command σ D) entry.args = true) :
    (subcommandKill config state entry).Ensures reached entry.client := by
  apply onTarget_ensures survives.holds
  intro id target
  apply ensures_bind
  intro permissions _
  show Outcome.Ensures _ _ (if _ then _ else _)
  split
  · exact refuseTarget_ensures survives.holds
  · apply ensures_bind
    intro next terminated
    rcases terminateConnection_eq terminated with ⟨occupant, found, _, _, rfl⟩
    have killed := survives.killed kills found (state.clientCount - 1)
    exact ensures_passNoClient killed fun _ _ => ensures_literalReply killed

theorem subcommandList_ensures {slot : Nat} (holds : reached state)
    (own : entry.client = some slot) :
    (subcommandList config state entry slot).Ensures reached entry.client := by
  apply ensures_bind
  intro held _
  show Outcome.Ensures _ _ (if _ then _ else _)
  split
  · exact ensures_literalReply holds
  · exact ensures_bufferedReply holds own

theorem subcommandInfo_ensures {slot : Nat} (holds : reached state)
    (own : entry.client = some slot) :
    (subcommandInfo config state entry slot).Ensures reached entry.client := by
  have describe : ∀ target,
      (describeClient config state entry.tag slot target).Ensures reached entry.client := by
    intro target
    apply ensures_bind
    intro permissions _
    apply ensures_bind
    intro res _
    show Outcome.Ensures _ _ (if _ then _ else _)
    split
    · exact ensures_bufferedReply holds own
    · exact ensures_none
  unfold subcommandInfo
  split
  · exact describe slot
  · apply ensures_bind
    intro held _
    show Outcome.Ensures _ _ (if _ then _ else _)
    split
    · exact ensures_literalReply holds
    · split
      · exact ensures_literalReply holds
      · apply ensures_bind
        rintro (_ | target) _
        · exact ensures_literalReply holds
        · exact describe target
  · exact ensures_literalReply holds

theorem subcommandSetinfo_ensures (holds : reached state) :
    (subcommandSetinfo state entry).Ensures reached entry.client := by
  unfold subcommandSetinfo
  split
  · split
    · exact ensures_literalReply holds
    · exact ensures_literalReply holds
  · exact ensures_literalReply holds

theorem runClient_ensures (survives : SurvivesClient state entry.args reached) :
    (runClient config state entry).Ensures reached entry.client := by
  have holds := survives.holds
  unfold runClient
  split
  · exact ensures_passNoClient holds fun _ _ => ensures_literalReply holds
  · next argument rest args =>
      show Outcome.Ensures _ _ (if _ then _ else if _ then _ else if _ then _ else _)
      split
      · exact subcommandLock_ensures survives
      · split
        · next kill =>
            have kills : killsClient (.client : Command σ D) entry.args = true := by
              rw [args]
              exact decide_eq_true kill
            exact subcommandKill_ensures survives kills
        · split
          · exact subcommandUnlock_ensures survives
          · apply ensures_passNoClient holds
            intro slot own
            split
            · exact ensures_bufferedReply holds own
            · split
              · exact subcommandInfo_ensures holds own
              · split
                · exact subcommandList_ensures holds own
                · split
                  · exact subcommandSetinfo_ensures holds
                  · exact ensures_literalReply holds

end Commands

end TellyDB.Server
