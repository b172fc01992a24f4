import TellyDB.Server.Outcomes
import TellyDB.Server.Pipeline

/-!
Owns what one command may do to the server: which parts of the state every
command leaves alone, which a command other than MULTI, EXEC and DISCARD leaves
alone, and what those three do.
-/

namespace TellyDB.Server

open Resp

variable {σ D K : Type} {threads : Nat}

/-! ## What commands leave alone -/

/-- The threads and the counters stay, clients only go, and the sessions of
other clients stay. `kills` and `resets` say whether a client may go, and whether
its password may become the empty one. -/
structure Undisturbed (resets kills : Prop) (client : Option Nat)
    (state next : State σ D K threads) : Prop where
  ioThreads : next.ioThreads = state.ioThreads
  txThread : next.txThread = state.txThread
  sent : next.sent = state.sent
  lastConnectionClientId : next.lastConnectionClientId = state.lastConnectionClientId
  writeBuf : ∀ slot, (next.clients slot).writeBuf = (state.clients slot).writeBuf
  id : ∀ slot, (next.clients slot).id = (state.clients slot).id ∨
    kills ∧ (next.clients slot).id = none
  database : ∀ slot, client ≠ some slot →
    (next.clients slot).database = (state.clients slot).database
  protover : ∀ slot, client ≠ some slot →
    (next.clients slot).protover = (state.clients slot).protover
  password : ∀ slot, client ≠ some slot →
    (next.clients slot).password = (state.clients slot).password ∨
      resets ∧ (next.clients slot).password = emptyPassword
  waitingBlock : ∀ slot, client ≠ some slot →
    (next.clients slot).waitingBlock = (state.clients slot).waitingBlock ∨
      (next.clients slot).id = none

/-- A command that manages no block leaves the queues and every block alone. -/
structure Ordinary (resets kills : Prop) (client : Option Nat)
    (state next : State σ D K threads) : Prop
    extends Undisturbed resets kills client state next where
  txQueue : next.txQueue = state.txQueue
  writeBufs : next.writeBufs = state.writeBufs
  trace : next.trace = state.trace
  waiting : ∀ slot, (next.clients slot).waitingBlock = (state.clients slot).waitingBlock ∨
    (next.clients slot).id = none

section Rules

variable {resets kills : Prop} {client : Option Nat} {state middle next : State σ D K threads}

theorem Undisturbed.refl : Undisturbed resets kills client state state where
  ioThreads := rfl
  txThread := rfl
  sent := rfl
  lastConnectionClientId := rfl
  writeBuf _ := rfl
  id _ := .inl rfl
  database _ _ := rfl
  protover _ _ := rfl
  password _ _ := .inl rfl
  waitingBlock _ _ := .inl rfl

theorem Undisturbed.gone (first : Undisturbed resets kills client state next) {slot : Nat}
    (gone : (state.clients slot).id = none) : (next.clients slot).id = none := by
  rcases first.id slot with same | ⟨_, gone⟩
  · rw [same, gone]
  · exact gone

theorem Undisturbed.trans (first : Undisturbed resets kills client state middle)
    (second : Undisturbed resets kills client middle next) :
    Undisturbed resets kills client state next where
  ioThreads := second.ioThreads.trans first.ioThreads
  txThread := second.txThread.trans first.txThread
  sent := second.sent.trans first.sent
  lastConnectionClientId := second.lastConnectionClientId.trans first.lastConnectionClientId
  writeBuf slot := (second.writeBuf slot).trans (first.writeBuf slot)
  id slot := by
    rcases second.id slot with same | gone
    · rw [same]
      exact first.id slot
    · exact .inr gone
  database slot other := (second.database slot other).trans (first.database slot other)
  protover slot other := (second.protover slot other).trans (first.protover slot other)
  password slot other := by
    rcases second.password slot other with same | reset
    · rw [same]
      exact first.password slot other
    · exact .inr reset
  waitingBlock slot other := by
    rcases second.waitingBlock slot other with same | gone
    · rcases first.waitingBlock slot other with sameBefore | goneBefore
      · exact .inl (same.trans sameBefore)
      · exact .inr (second.gone goneBefore)
    · exact .inr gone

theorem Undisturbed.mono {resets' kills' : Prop} (undisturbed : Undisturbed resets kills client state next)
    (reset : resets → resets') (kill : kills → kills') :
    Undisturbed resets' kills' client state next :=
  { undisturbed with
    id := fun slot => (undisturbed.id slot).imp_right fun gone => ⟨kill gone.1, gone.2⟩
    password := fun slot other =>
      (undisturbed.password slot other).imp_right fun empty => ⟨reset empty.1, empty.2⟩ }

theorem Ordinary.refl : Ordinary resets kills client state state where
  toUndisturbed := Undisturbed.refl
  txQueue := rfl
  writeBufs := rfl
  trace := rfl
  waiting _ := .inl rfl

theorem Ordinary.trans (first : Ordinary resets kills client state middle)
    (second : Ordinary resets kills client middle next) :
    Ordinary resets kills client state next where
  toUndisturbed := first.toUndisturbed.trans second.toUndisturbed
  txQueue := second.txQueue.trans first.txQueue
  writeBufs := second.writeBufs.trans first.writeBufs
  trace := second.trace.trans first.trace
  waiting slot := by
    rcases second.waiting slot with same | gone
    · rcases first.waiting slot with sameBefore | goneBefore
      · exact .inl (same.trans sameBefore)
      · exact .inr (second.gone goneBefore)
    · exact .inr gone

theorem Ordinary.mono {resets' kills' : Prop} (ordinary : Ordinary resets kills client state next)
    (reset : resets → resets') (kill : kills → kills') :
    Ordinary resets' kills' client state next :=
  { ordinary with toUndisturbed := ordinary.toUndisturbed.mono reset kill }

theorem Ordinary.databases (databases : σ) :
    Ordinary resets kills client state { state with databases := databases } :=
  { (Ordinary.refl : Ordinary resets kills client state state) with }

theorem Ordinary.passwords (passwords : Passwords K) :
    Ordinary resets kills client state { state with passwords := passwords } :=
  { (Ordinary.refl : Ordinary resets kills client state state) with }

/-- A change of one client that keeps its id, block and `write_buf`; of another
client it keeps the session too. -/
theorem Ordinary.updateClient {slot : Nat} {update : Client σ D → Client σ D}
    (id : ∀ client, (update client).id = client.id)
    (writeBuf : ∀ client, (update client).writeBuf = client.writeBuf)
    (waitingBlock : ∀ client, (update client).waitingBlock = client.waitingBlock)
    (own : client = some slot ∨ ∀ client, (update client).database = client.database ∧
      (update client).protover = client.protover ∧ (update client).password = client.password) :
    Ordinary resets kills client state (state.updateClient slot update) := by
  have updated : ∀ other, (state.updateClient slot update).clients other =
      if other = slot then update (state.clients slot) else state.clients other := by
    intro other
    simp [State.updateClient, Function.update_apply]
  have session : ∀ other, client ≠ some other →
      ((state.updateClient slot update).clients other).database = (state.clients other).database ∧
      ((state.updateClient slot update).clients other).protover = (state.clients other).protover ∧
      ((state.updateClient slot update).clients other).password =
        (state.clients other).password := by
    intro other different
    rw [updated]
    split
    · next same =>
        subst same
        rcases own with same | kept
        · exact absurd same different
        · exact kept _
    · exact ⟨rfl, rfl, rfl⟩
  have kept : ∀ {α : Type} (field : Client σ D → α),
      (∀ client, field (update client) = field client) →
      ∀ other, field ((state.updateClient slot update).clients other) =
        field (state.clients other) := by
    intro α field same other
    rw [updated]
    split
    · next here =>
        subst here
        exact same _
    · rfl
  exact {
    ioThreads := rfl
    txThread := rfl
    sent := rfl
    lastConnectionClientId := rfl
    writeBuf := kept _ writeBuf
    id := fun other => .inl (kept _ id other)
    database := fun other different => (session other different).1
    protover := fun other different => (session other different).2.1
    password := fun other different => .inl (session other different).2.2
    waitingBlock := fun other _ => .inl (kept _ waitingBlock other)
    txQueue := rfl
    writeBufs := rfl
    trace := rfl
    waiting := fun other => .inl (kept _ waitingBlock other) }

end Rules

/-- A computation that, if it does not crash, makes an `Ordinary` change and
then replies. -/
def Outcome.Ordinarily (resets kills : Prop) (client : Option Nat) (state : State σ D K threads)
    (outcome : Outcome σ D K threads) : Prop :=
  ∀ result, outcome = some result →
    ∃ next, Ordinary resets kills client state next ∧ Replies client next result

/-! ## The commands that manage no block -/

section Commands

variable {config : Config σ D K} {state : State σ D K threads} {entry : Entry D}
  {resets kills : Prop}

theorem runSelect_ordinarily :
    (runSelect config state entry).Ordinarily resets kills entry.client state := by
  apply runSelect_ensures Ordinary.refl
  intro slot databases database own
  apply Ordinary.trans (Ordinary.databases databases)
  exact Ordinary.updateClient (fun _ => rfl) (fun _ => rfl) (fun _ => rfl) (.inl own)

theorem runAuth_ordinarily [DecidableEq K] :
    (runAuth config state entry).Ordinarily resets kills entry.client state := by
  apply runAuth_ensures Ordinary.refl
  intro slot input index own _
  exact Ordinary.updateClient (fun _ => rfl) (fun _ => rfl) (fun _ => rfl) (.inl own)

theorem runHello_ordinarily :
    (runHello config state entry).Ordinarily resets kills entry.client state := by
  apply runHello_ensures Ordinary.refl
  intro slot protover own
  exact Ordinary.updateClient (fun _ => rfl) (fun _ => rfl) (fun _ => rfl) (.inl own)

theorem runData_ordinarily {command : DataCommand σ D} :
    (runData state entry command).Ordinarily resets kills entry.client state :=
  runData_ensures fun _ databases _ _ => Ordinary.databases databases

/-! ### PWD -/

theorem claimFirstPassword_ordinary {client : Option Nat} {next : State σ D K threads}
    (claimed : claimFirstPassword state client = some next) :
    Ordinary resets kills client state next := by
  unfold claimFirstPassword at claimed
  split at claimed
  · rcases Option.bind_eq_some_iff.mp claimed with ⟨slot, rfl, claimed⟩
    cases claimed
    apply Ordinary.trans (Ordinary.passwords _)
    exact Ordinary.updateClient (fun _ => rfl) (fun _ => rfl) (fun _ => rfl) (.inl rfl)
  · cases claimed
    exact Ordinary.refl

theorem addPassword_ordinary (resets kills : Prop) {client : Option Nat} {data : Bytes} {permissions : Permissions}
    {next : State σ D K threads}
    (added : addPassword config state client data permissions true = some (next, true)) :
    Ordinary resets kills client state next := by
  rcases addPassword_eq_some added with ⟨claimed, claim, rfl⟩
  exact (claimFirstPassword_ordinary claim).trans (Ordinary.passwords _)

theorem releaseLastPassword_ordinary {executor : Option Nat} {next : State σ D K threads}
    (released : releaseLastPassword state executor = some next) :
    Ordinary resets kills executor state next := by
  unfold releaseLastPassword at released
  split at released
  · rcases Option.bind_eq_some_iff.mp released with ⟨slot, rfl, released⟩
    cases released
    exact Ordinary.updateClient (fun _ => rfl) (fun _ => rfl) (fun _ => rfl) (.inl rfl)
  · cases released
    exact Ordinary.refl

theorem removePasswordFromClients_ordinary {client : Option Nat} (password : Nat) :
    Ordinary True kills client state
      { state with clients := removePasswordFromClients state.clients password } := by
  have removed : ∀ slot, removePasswordFromClients state.clients password slot =
        state.clients slot ∨
      removePasswordFromClients state.clients password slot =
        { state.clients slot with password := emptyPassword } := by
    intro slot
    unfold removePasswordFromClients
    split
    · exact .inr rfl
    · exact .inl rfl
  have kept : ∀ {α : Type} (field : Client σ D → α),
      (∀ client, field { client with password := emptyPassword } = field client) → ∀ slot,
      field (removePasswordFromClients state.clients password slot) =
        field (state.clients slot) := by
    intro α field same slot
    rcases removed slot with unchanged | reset
    · rw [unchanged]
    · rw [reset]
      exact same _
  exact { (Ordinary.refl : Ordinary True kills client state state) with
    writeBuf := kept _ fun _ => rfl
    id := fun slot => .inl (kept _ (fun _ => rfl) slot)
    database := fun slot _ => kept _ (fun _ => rfl) slot
    protover := fun slot _ => kept _ (fun _ => rfl) slot
    password := fun slot _ => by
      rcases removed slot with unchanged | reset
      · exact .inl (congrArg Client.password unchanged)
      · exact .inr ⟨trivial, congrArg Client.password reset⟩
    waitingBlock := fun slot _ => .inl (kept _ (fun _ => rfl) slot)
    waiting := fun slot => .inl (kept _ (fun _ => rfl) slot) }

theorem removePassword_ordinary [DecidableEq K] (kills : Prop) {client : Option Nat} {value : Bytes}
    {result : State σ D K threads × Bool}
    (removed : removePassword config state client value = some result) :
    Ordinary True kills client state result.1 := by
  unfold removePassword at removed
  split at removed
  · cases removed
    exact Ordinary.refl
  · rcases Option.bind_eq_some_iff.mp removed with ⟨released, release, removed⟩
    cases removed
    apply Ordinary.trans (releaseLastPassword_ordinary release)
    exact (removePasswordFromClients_ordinary _).trans (Ordinary.passwords _)

/-- The subcommand is PWD REMOVE. -/
def resetsPasswords : Command σ D → List Bytes → Bool
  | .pwd, argument :: _ => decide (toUppercase argument = text "REMOVE")
  | _, _ => false

theorem resetsPasswords_of_arguments {args rest : List Bytes}
    (asked : pwdArguments "REMOVE" (.pwd : Command σ D) args = some rest) :
    resetsPasswords (.pwd : Command σ D) args = true := by
  cases args with
  | nil => cases asked
  | cons argument others =>
      rw [pwdArguments] at asked
      split at asked
      · next remove => exact decide_eq_true remove
      · cases asked

theorem runPwd_ordinarily [DecidableEq K] :
    (runPwd config state entry).Ordinarily
      (resetsPasswords (.pwd : Command σ D) entry.args = true) kills entry.client state := by
  apply runPwd_ensures
  exact {
    holds := Ordinary.refl
    added := fun _ _ _ _ _ _ _ _ _ _ added => addPassword_ordinary _ _ added
    edited := fun _ _ _ _ _ _ _ _ _ => Ordinary.passwords _
    removed := fun _ _ _ asked _ removed =>
      (removePassword_ordinary kills removed).mono (fun _ => resetsPasswords_of_arguments asked) id }

/-! ### CLIENT -/

theorem removed_ordinary (resets : Prop) (client : Option Nat) {found count : Nat} :
    Ordinary resets True client state
      { state.updateClient found Client.removed with clientCount := count } := by
  have updated : ∀ slot, (state.updateClient found Client.removed).clients slot =
      if slot = found then (state.clients found).removed else state.clients slot := by
    intro slot
    simp [State.updateClient, Function.update_apply]
  have kept : ∀ {α : Type} (field : Client σ D → α),
      (∀ client : Client σ D, field client.removed = field client) → ∀ slot,
      field ((state.updateClient found Client.removed).clients slot) =
        field (state.clients slot) := by
    intro α field same slot
    rw [updated]
    split
    · next here => rw [here, same]
    · rfl
  have gone : ∀ slot, ((state.updateClient found Client.removed).clients slot).waitingBlock =
        (state.clients slot).waitingBlock ∨
      ((state.updateClient found Client.removed).clients slot).id = none := by
    intro slot
    rw [updated]
    split
    · exact .inr rfl
    · exact .inl rfl
  exact { (Ordinary.refl : Ordinary resets True client state state) with
    writeBuf := kept _ fun _ => rfl
    id := fun slot => by
      show ((state.updateClient found Client.removed).clients slot).id = _ ∨
        True ∧ ((state.updateClient found Client.removed).clients slot).id = none
      rw [updated]
      split
      · exact .inr ⟨trivial, rfl⟩
      · exact .inl rfl
    database := fun slot _ => kept _ (fun _ => rfl) slot
    protover := fun slot _ => kept _ (fun _ => rfl) slot
    password := fun slot _ => .inl (kept _ (fun _ => rfl) slot)
    waitingBlock := fun slot _ => gone slot
    waiting := gone }

theorem runClient_ordinarily :
    (runClient config state entry).Ordinarily resets
      (killsClient (.client : Command σ D) entry.args = true) entry.client state := by
  apply runClient_ensures
  exact {
    holds := Ordinary.refl
    locked := fun _ _ => Ordinary.updateClient (fun _ => rfl) (fun _ => rfl) (fun _ => rfl)
      (.inr fun _ => ⟨rfl, rfl, rfl⟩)
    killed := fun kills _ _ => (removed_ordinary resets entry.client).mono id fun _ => kills }

/-- A command that manages no block, whatever its arguments. -/
theorem runOn_ordinarily [DecidableEq K] {command : Command σ D}
    (managesNone : command.waitingTx = false) :
    (command.runOn config state entry).Ordinarily
      (resetsPasswords command entry.args = true) (killsClient command entry.args = true)
      entry.client state := by
  cases command with
  | multi => cases managesNone
  | exec => cases managesNone
  | discard => cases managesNone
  | select => exact runSelect_ordinarily
  | auth => exact runAuth_ordinarily
  | hello => exact runHello_ordinarily
  | pwd => exact runPwd_ordinarily
  | client => exact runClient_ordinarily
  | data command => exact runData_ordinarily

/-! ## The commands that manage a block -/

/-- What MULTI, EXEC and DISCARD do before they reply. -/
inductive Manages (config : Config σ D K) (entry : Entry D) (state : State σ D K threads) :
    Command σ D → State σ D K threads → Prop
  | refused (command : Command σ D) : Manages config entry state command state
  | opened (slot : Nat) (own : entry.client = some slot)
      (closed : (state.clients slot).waitingBlock = none) :
      Manages config entry state .multi
        ((state.setWaitingBlock slot (some ⟨entry.password, []⟩)).record [.opened entry.tag])
  | committed (slot : Nat) (block : WaitingBlock σ D) (own : entry.client = some slot)
      (waiting : (state.clients slot).waitingBlock = some block)
      (room : state.txQueue.length < config.maxTransactionBlocks) :
      Manages config entry state .exec
        ((State.setWaitingBlock { state with txQueue := state.txQueue ++
            [⟨slot, block.password, .multiple entry.tag block.transactions⟩] } slot
          none).record [.committed entry.tag])
  | discarded (slot : Nat) (block : WaitingBlock σ D) (own : entry.client = some slot)
      (waiting : (state.clients slot).waitingBlock = some block) :
      Manages config entry state .discard
        ((state.setWaitingBlock slot none).record [.discarded entry.tag])

theorem clients_setWaitingBlock {slot : Nat} {block : Option (WaitingBlock σ D)} (other : Nat) :
    (state.setWaitingBlock slot block).clients other =
      if other = slot then { state.clients slot with waitingBlock := block }
      else state.clients other := by
  simp only [State.setWaitingBlock, State.updateClient, Function.update_apply]

theorem id_setWaitingBlock {slot : Nat} {block : Option (WaitingBlock σ D)} (other : Nat) :
    ((state.setWaitingBlock slot block).clients other).id = (state.clients other).id := by
  rw [clients_setWaitingBlock]
  split
  · next here => rw [here]
  · rfl

theorem setWaitingBlock_undisturbed {client : Option Nat} {slot : Nat}
    {block : Option (WaitingBlock σ D)} (own : client = some slot) :
    Undisturbed resets kills client state (state.setWaitingBlock slot block) := by
  have kept : ∀ {α : Type} (field : Client σ D → α),
      (∀ client, field { client with waitingBlock := block } = field client) → ∀ other,
      field ((state.setWaitingBlock slot block).clients other) =
        field (state.clients other) := by
    intro α field same other
    rw [clients_setWaitingBlock]
    split
    · next here => rw [here, same]
    · rfl
  exact {
    ioThreads := rfl
    txThread := rfl
    sent := rfl
    lastConnectionClientId := rfl
    writeBuf := kept _ fun _ => rfl
    id := fun other => .inl (kept _ (fun _ => rfl) other)
    database := fun other _ => kept _ (fun _ => rfl) other
    protover := fun other _ => kept _ (fun _ => rfl) other
    password := fun other _ => .inl (kept _ (fun _ => rfl) other)
    waitingBlock := fun other different => by
      have elsewhere : other ≠ slot := fun same => different (own.trans (congrArg some same.symm))
      rw [clients_setWaitingBlock, if_neg elsewhere]
      exact .inl rfl }

/-- What is in the trace and in the transaction queue does not matter here. -/
theorem Undisturbed.congr {client : Option Nat} {next : State σ D K threads}
    (undisturbed : Undisturbed resets kills client state next)
    {queue : List (TransactionBlock σ D)} {trace : List (Event σ D)} :
    Undisturbed resets kills client state { next with txQueue := queue, trace := trace } :=
  { undisturbed with }

theorem Manages.undisturbed (resets kills : Prop) {command : Command σ D} {next : State σ D K threads}
    (manages : Manages config entry state command next) :
    Undisturbed resets kills entry.client state next := by
  cases manages with
  | refused => exact Undisturbed.refl
  | opened slot own closed => exact (setWaitingBlock_undisturbed own).congr
  | committed slot block own waiting room => exact (setWaitingBlock_undisturbed own).congr
  | discarded slot block own waiting => exact (setWaitingBlock_undisturbed own).congr

/-- An event of a command that manages a block. -/
inductive ManagingEvent (tag : Tag) : Event σ D → Prop
  | opened : ManagingEvent tag (.opened tag)
  | committed : ManagingEvent tag (.committed tag)
  | discarded : ManagingEvent tag (.discarded tag)

theorem Manages.trace {command : Command σ D} {next : State σ D K threads}
    (manages : Manages config entry state command next) :
    ∃ events, next.trace = state.trace ++ events ∧
      ∀ event ∈ events, ManagingEvent entry.tag event := by
  cases manages with
  | refused => exact ⟨[], by simp, nofun⟩
  | opened slot own closed =>
      exact ⟨[.opened entry.tag], rfl, by simpa using ManagingEvent.opened⟩
  | committed slot block own waiting room =>
      exact ⟨[.committed entry.tag], rfl, by simpa using ManagingEvent.committed⟩
  | discarded slot block own waiting =>
      exact ⟨[.discarded entry.tag], rfl, by simpa using ManagingEvent.discarded⟩

theorem Manages.writeBufs {command : Command σ D} {next : State σ D K threads}
    (manages : Manages config entry state command next) : next.writeBufs = state.writeBufs := by
  cases manages <;> rfl

theorem runMulti_manages {result : State σ D K threads × Response}
    (returned : runMulti state entry = some result) :
    ∃ next, Manages config entry state .multi next ∧ Replies entry.client next result := by
  rcases passNoClient_cases returned with ⟨_, rfl⟩ | ⟨slot, own, returned⟩
  · exact ⟨state, .refused _, .literal []⟩
  · cases waiting : (state.clients slot).waitingBlock with
    | some block =>
        simp only [waiting] at returned
        cases returned
        exact ⟨state, .refused _, .literal _⟩
    | none =>
        simp only [waiting] at returned
        cases returned
        exact ⟨_, .opened slot own waiting, .literal _⟩

theorem runExec_manages {result : State σ D K threads × Response}
    (returned : runExec config state entry = some result) :
    ∃ next, Manages config entry state .exec next ∧ Replies entry.client next result := by
  rcases passNoClient_cases returned with ⟨_, rfl⟩ | ⟨slot, own, returned⟩
  · exact ⟨state, .refused _, .literal []⟩
  · cases waiting : (state.clients slot).waitingBlock with
    | none =>
        simp only [waiting] at returned
        cases returned
        exact ⟨state, .refused _, .literal _⟩
    | some block =>
        simp only [waiting] at returned
        split at returned
        · next room =>
            cases returned
            exact ⟨_, .committed slot block own waiting room, .literal []⟩
        · cases returned
          exact ⟨state, .refused _, .literal _⟩

theorem runDiscard_manages {result : State σ D K threads × Response}
    (returned : runDiscard state entry = some result) :
    ∃ next, Manages config entry state .discard next ∧ Replies entry.client next result := by
  rcases passNoClient_cases returned with ⟨_, rfl⟩ | ⟨slot, own, returned⟩
  · exact ⟨state, .refused _, .literal []⟩
  · cases waiting : (state.clients slot).waitingBlock with
    | none =>
        simp only [waiting] at returned
        cases returned
        exact ⟨state, .refused _, .literal _⟩
    | some block =>
        simp only [waiting, bufferedReply] at returned
        split at returned
        · cases returned
          exact ⟨_, .discarded slot block own waiting, .buffered slot _ own⟩
        · cases returned

/-- Any command: what it does, and how it replies. -/
theorem runOn_cases [DecidableEq K] {command : Command σ D}
    {result : State σ D K threads × Response}
    (returned : command.runOn config state entry = some result) :
    ∃ next, (command.waitingTx = true ∧ Manages config entry state command next ∨
        command.waitingTx = false ∧ Ordinary (resetsPasswords command entry.args = true)
          (killsClient command entry.args = true) entry.client state next) ∧
      Replies entry.client next result := by
  cases flag : command.waitingTx with
  | false =>
      rcases runOn_ordinarily flag result returned with ⟨next, ordinary, replies⟩
      exact ⟨next, .inr ⟨rfl, ordinary⟩, replies⟩
  | true =>
      have managed : ∃ next, Manages config entry state command next ∧
          Replies entry.client next result := by
        cases command with
        | multi => exact runMulti_manages returned
        | exec => exact runExec_manages returned
        | discard => exact runDiscard_manages returned
        | _ => cases flag
      rcases managed with ⟨next, manages, replies⟩
      exact ⟨next, .inl ⟨rfl, manages⟩, replies⟩

end Commands

end TellyDB.Server
