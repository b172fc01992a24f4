import TellyDB.Server.SendingOrder
import TellyDB.Server.PasswordTable

/-!
Owns the revocation of passwords: as long as no PWD REMOVE takes a password that a
queued block, an open block or the rest of its own block still carries, every command
is authorized by a password that is constant or in the list, and none is read after it
was freed.
-/

namespace TellyDB.Server

open Resp Lib

variable {σ D K : Type} {threads : Nat}

/-! ## The condition -/

/-- One of the transactions is a PWD REMOVE of this password. -/
def removesPassword [DecidableEq K] (config : Config σ D K) (passwords : Passwords K)
    (transactions : List (Transaction σ D)) (password : Nat) : Bool :=
  transactions.any fun transaction =>
    match pwdArguments "REMOVE" transaction.command transaction.args with
    | some [input] => passwords.dataOf password == some (config.derive input)
    | _ => false

/-- The step executes a PWD REMOVE of a password that a queued block, the open block of
a client or a later transaction of the same block carries, or a block that may end its
own client and remove the password of that. -/
def revokesCarried [DecidableEq K] (config : Config σ D K) (state : State σ D K threads) :
    Action σ D threads → Bool
  | .txExecute =>
      match state.txThread with
      | .popped block =>
          let removes := removesPassword config state.passwords block.transactions
          removesPassword config state.passwords block.transactions.dropLast block.password ||
            state.txQueue.any (fun other => removes other.password) ||
            (List.range config.maxClients).any (fun slot =>
              (state.clients slot).id.isSome &&
                (state.clients slot).waitingBlock.any fun waiting => removes waiting.password) ||
            block.anyCommand killsClient && block.anyCommand resetsPasswords
      | _ => false
  | _ => false

/-! ## The invariant -/

/-- Passwords that connected clients and blocks refer to are constant or in the list. -/
structure Unrevoked (config : Config σ D K) (state : State σ D K threads) : Prop where
  accounts : Accounts state
  bound : ∀ slot id, (state.clients slot).id = some id → slot < config.maxClients
  pending : ∀ block ∈ state.pending, state.passwords.Valid block.password
  waiting : ∀ slot id block, (state.clients slot).id = some id →
    (state.clients slot).waitingBlock = some block → state.passwords.Valid block.password

section Transactions

variable [DecidableEq K] {config : Config σ D K} {state next after : State σ D K threads}
  {client : Option Nat} {password : Nat} {transaction : Transaction σ D} {block : Option Tag}

/-- A password stays valid, with its derived value, unless it is the one removed. -/
theorem PasswordStep.valid {entry : Entry D} {command : Command σ D} {address : Nat}
    (accounts : Accounts state) (step : PasswordStep config entry state command next)
    (valid : state.passwords.Valid address)
    (spared : ∀ input, pwdArguments "REMOVE" command entry.args = some [input] →
      state.passwords.dataOf address ≠ some (config.derive input)) :
    next.passwords.Valid address ∧
      next.passwords.dataOf address = state.passwords.dataOf address := by
  have sound := accounts.sound
  have old : address ≠ state.passwords.nextAddress := by
    rcases valid with constant | member
    · exact sound.constant_ne_next constant
    · exact Nat.ne_of_lt (sound.listed address member).2.1
  cases step with
  | kept _ _ same =>
      rw [same.passwords]
      exact ⟨valid, rfl⟩
  | authorized slot index input own found => exact ⟨valid, rfl⟩
  | added data value held permissions _ asked absent holds allowed allocated added =>
      rcases addPassword_cases added with ⟨_, rfl⟩ | ⟨slot, _, _, rfl⟩
      · refine ⟨valid.imp_right fun member => List.mem_append_left _ member, ?_⟩
        rw [Passwords.dataOf_allocate, if_neg old]
      · refine ⟨valid.imp_right fun member => List.mem_append_left _ member, ?_⟩
        rw [Passwords.dataOf_allocate]
        exact (if_neg old).trans (Passwords.dataOf_setPermissions _ _ _)
  | edited input value target held permissions asked found holds allowed =>
      exact ⟨valid, Passwords.dataOf_setPermissions _ _ _⟩
  | removed input index _ asked found removed =>
      have passwords : next.passwords = state.passwords.release index := by
        rcases removePassword_cases found removed with ⟨_, rfl⟩ | ⟨_, _, _, rfl⟩ <;> rfl
      have other := (sound.target found).2 address (spared input asked)
      rw [passwords, Passwords.dataOf, Passwords.objects_release, if_neg other]
      refine ⟨valid.imp_right fun member => ?_, rfl⟩
      exact (sound.mem_release (Passwords.wherePassword_found found).1 address).mpr
        ⟨member, other⟩

theorem removesPassword_of_mem {passwords : Passwords K} {transactions : List (Transaction σ D)}
    {address : Nat} (spared : removesPassword config passwords transactions address = false)
    (member : transaction ∈ transactions) (input : Bytes)
    (asked : pwdArguments "REMOVE" transaction.command transaction.args = some [input]) :
    passwords.dataOf address ≠ some (config.derive input) := by
  intro same
  have this := List.any_eq_false.mp spared transaction member
  rw [asked] at this
  exact this (beq_iff_eq.mpr same)

theorem executeTransaction_valid {response : Response} {address : Nat} (accounts : Accounts state)
    (executed : executeTransaction config state client password transaction block =
      some (after, response)) (valid : state.passwords.Valid address)
    (spared : ∀ input, pwdArguments "REMOVE" transaction.command transaction.args = some [input] →
      state.passwords.dataOf address ≠ some (config.derive input)) :
    after.passwords.Valid address ∧
      after.passwords.dataOf address = state.passwords.dataOf address := by
  rcases executeTransaction_passwordStep executed with ⟨next, step, passwords, clients⟩
  rw [passwords]
  exact step.valid accounts valid spared

/-- Passwords that no transaction of the block removes stay valid all the way. -/
theorem executeTransactions_valid {exec : Tag} {transactions : List (QueuedTransaction σ D)}
    {results : List Bytes} (accounts : Accounts state)
    (executed : executeTransactions config client password exec state transactions =
      some (after, results)) :
    Accounts after ∧ ∀ address, state.passwords.Valid address →
      removesPassword config state.passwords (transactions.map Subtype.val) address = false →
      after.passwords.Valid address ∧
        after.passwords.dataOf address = state.passwords.dataOf address := by
  induction transactions generalizing state results with
  | nil =>
      cases executed
      exact ⟨accounts, fun _ valid _ => ⟨valid, rfl⟩⟩
  | cons transaction rest inductionHypothesis =>
      rcases Option.bind_eq_some_iff.mp executed with ⟨⟨middle, response⟩, first, executed⟩
      rcases Option.bind_eq_some_iff.mp executed with ⟨⟨last, others⟩, second, executed⟩
      cases executed
      rcases inductionHypothesis (accounts.executeTransaction first) second with
        ⟨accountsAfter, validAfter⟩
      refine ⟨accountsAfter, fun address valid spared => ?_⟩
      have here := executeTransaction_valid accounts first valid
        (removesPassword_of_mem spared (List.mem_map_of_mem List.mem_cons_self))
      have later : removesPassword config middle.passwords (rest.map Subtype.val) address =
          false := by
        rw [List.map_cons, removesPassword, List.any_cons, Bool.or_eq_false_iff] at spared
        rw [removesPassword, here.2]
        exact spared.2
      rw [← here.2]
      exact validAfter address here.1 later

/-- The same of a whole block. -/
theorem executeTransactionBlock_valid {block : TransactionBlock σ D} (accounts : Accounts state)
    (executed : executeTransactionBlock config state block = some next) :
    Accounts next ∧ ∀ address, state.passwords.Valid address →
      removesPassword config state.passwords block.transactions address = false →
      next.passwords.Valid address := by
  cases data : block.data with
  | direct transaction =>
      have transactions : block.transactions = [transaction] := by
        rw [TransactionBlock.transactions, data]
      rcases executeTransactionBlock_direct data executed with ⟨after, response, ran, ended⟩
      have done := accounts.executeTransaction ran
      have same : next.passwords = after.passwords ∧ next.clients = after.clients := by
        rcases ended with rfl | ⟨_, rfl⟩ <;> exact ⟨rfl, rfl⟩
      refine ⟨⟨same.1 ▸ done.sound, by rw [same.1, same.2]; exact done.held⟩, ?_⟩
      intro address valid spared
      rw [same.1]
      rw [transactions] at spared
      exact (executeTransaction_valid accounts ran valid
        (removesPassword_of_mem spared List.mem_cons_self)).1
  | multiple exec transactions =>
      have all : block.transactions = transactions.map Subtype.val := by
        rw [TransactionBlock.transactions, data]
      rcases executeTransactionBlock_multiple data executed with ⟨after, results, ran, _, rfl⟩
      rcases executeTransactions_valid accounts ran with ⟨done, valid⟩
      refine ⟨⟨done.sound, done.held⟩, fun address held spared => ?_⟩
      rw [all] at spared
      exact (valid address held spared).1

end Transactions

/-! ## Steps -/

section Steps

variable {config : Config σ D K} {state next : State σ D K threads}

/-- A change of no password, in which clients may go and no block is new. -/
theorem Unrevoked.change (unrevoked : Unrevoked config state) (same : SamePasswords state next)
    (waiting : ∀ slot, (next.clients slot).waitingBlock = (state.clients slot).waitingBlock ∨
      (next.clients slot).id = none)
    (pending : ∀ block ∈ next.pending, block ∈ state.pending) : Unrevoked config next where
  accounts := unrevoked.accounts.same same
  bound slot id occupied := by
    rcases same.id slot with stays | gone
    · exact unrevoked.bound slot id (stays ▸ occupied)
    · rw [occupied] at gone
      cases gone
  pending block member := by
    rw [same.passwords]
    exact unrevoked.pending block (pending block member)
  waiting slot id block occupied waits := by
    rw [same.passwords]
    rcases same.id slot with stays | gone
    · rcases waiting slot with kept | gone
      · exact unrevoked.waiting slot id block (stays ▸ occupied) (kept ▸ waits)
      · rw [occupied] at gone
        cases gone
    · rw [occupied] at gone
      cases gone

/-- A change of threads, numbers and events only. -/
theorem Unrevoked.congr (unrevoked : Unrevoked config state)
    (passwords : next.passwords = state.passwords) (clients : next.clients = state.clients)
    (pending : next.pending = state.pending) : Unrevoked config next := by
  apply unrevoked.change (SamePasswords.of_eq passwords clients)
  · exact fun slot => .inl (by rw [clients])
  · rw [pending]
    exact fun _ member => member

/-- A new block of a connected client. -/
theorem Unrevoked.enqueue (unrevoked : Unrevoked config state) {slot id : Nat}
    {block : TransactionBlock σ D} (occupied : (state.clients slot).id = some id)
    (own : block.password = (state.clients slot).password)
    (passwords : next.passwords = state.passwords) (clients : next.clients = state.clients)
    (pending : next.pending = state.pending ++ [block]) : Unrevoked config next := by
  have same : SamePasswords state next := SamePasswords.of_eq passwords clients
  refine ⟨unrevoked.accounts.same same, ?_, ?_, ?_⟩
  · rw [clients]
    exact unrevoked.bound
  · intro other member
    rw [pending] at member
    rw [passwords]
    rcases List.mem_append.mp member with before | new
    · exact unrevoked.pending other before
    · rw [List.mem_singleton.mp new, own]
      exact unrevoked.accounts.held slot id occupied
  · rw [clients, passwords]
    exact unrevoked.waiting

variable [DecidableEq K]

/-- What the condition says about a popped block. -/
structure Spares (config : Config σ D K) (state : State σ D K threads)
    (block : TransactionBlock σ D) : Prop where
  own : removesPassword config state.passwords block.transactions.dropLast block.password = false
  queued : ∀ other ∈ state.txQueue,
    removesPassword config state.passwords block.transactions other.password = false
  waiting : ∀ slot id waiting, (state.clients slot).id = some id →
    (state.clients slot).waitingBlock = some waiting →
    removesPassword config state.passwords block.transactions waiting.password = false
  client : block.anyCommand killsClient = false ∨ block.anyCommand resetsPasswords = false

theorem Unrevoked.spares (unrevoked : Unrevoked config state) {block : TransactionBlock σ D}
    (held : state.txThread = .popped block)
    (safe : revokesCarried config state (.txExecute : Action σ D threads) = false) :
    Spares config state block := by
  simp only [revokesCarried, held, Bool.or_eq_false_iff, Bool.and_eq_false_iff] at safe
  rcases safe with ⟨⟨⟨own, queued⟩, waiting⟩, client⟩
  refine ⟨own, ?_, ?_, client⟩
  · intro other member
    exact Bool.eq_false_iff.mpr (List.any_eq_false.mp queued other member)
  · intro slot id block occupied waits
    have inRange := List.mem_range.mpr (unrevoked.bound slot id occupied)
    have spared := List.any_eq_false.mp waiting slot inRange
    rw [occupied, waits] at spared
    exact Bool.eq_false_iff.mpr spared

/-- A block of one managing command removes nothing. -/
theorem removesPassword_managing {transaction : Transaction σ D} (passwords : Passwords K)
    (managesOne : transaction.command.waitingTx = true) (address : Nat) :
    removesPassword config passwords [transaction] address = false := by
  rw [removesPassword, List.any_cons, List.any_nil, Bool.or_false]
  cases command : transaction.command with
  | multi => rfl
  | exec => rfl
  | discard => rfl
  | _ =>
      rw [command] at managesOne
      cases managesOne

theorem Unrevoked.run (unrevoked : Unrevoked config state) {block : TransactionBlock σ D}
    (held : state.txThread = .popped block) (spares : Spares config state block)
    (ran : executeTransactionBlock config state block = some next) : Unrevoked config next := by
  rcases executeTransactionBlock_valid unrevoked.accounts ran with ⟨accounts, valid⟩
  have own := unrevoked.pending block (held_block held)
  have queued : ∀ other ∈ state.txQueue, next.passwords.Valid other.password := by
    intro other member
    apply valid _ (unrevoked.pending other ?_) (spares.queued other member)
    rw [pending_popped held]
    exact List.mem_cons_of_mem _ member
  have waiting : ∀ slot id waiting, (state.clients slot).id = some id →
      (state.clients slot).waitingBlock = some waiting →
      next.passwords.Valid waiting.password := by
    intro slot id waiting occupied waits
    exact valid _ (unrevoked.waiting slot id waiting occupied waits)
      (spares.waiting slot id waiting occupied waits)
  have bound : ∀ slot id, (next.clients slot).id = some id → slot < config.maxClients := by
    rcases executeTransactionBlock_undisturbed ran with ⟨after, writeBufs, stays, ended⟩
    have clients : next.clients = after.clients := by
      rcases ended with rfl | ⟨_, _, _, rfl⟩ <;> rfl
    intro slot id occupied
    rw [clients] at occupied
    rcases stays.id slot with same | ⟨_, gone⟩
    · exact unrevoked.bound slot id (same ▸ occupied)
    · rw [occupied] at gone
      cases gone
  have quietly : Quiet state next → next.pending = state.txQueue → Unrevoked config next := by
    intro quiet pending
    refine ⟨accounts, bound, ?_, ?_⟩
    · rw [pending]
      exact queued
    · intro slot id block occupied waits
      rcases quiet.stays occupied with ⟨before, same⟩
      exact waiting slot id block before (same ▸ waits)
  cases executeTransactionBlock_run ran with
  | direct transaction reply data quiet pending executions => exact quietly quiet pending
  | multiple exec transactions new data quiet pending executions same under =>
      exact quietly quiet pending
  | managed transaction reply boundary before after new data connected moves waits clients last
      sent pending acceptances boundaries executions =>
      have single : block.transactions = [transaction] := by
        rw [TransactionBlock.transactions, data]
      have managesOne : transaction.command.waitingTx = true := by
        generalize transaction.command = command at moves ⊢
        cases moves <;> rfl
      have spared : ∀ address, removesPassword config state.passwords block.transactions address =
          false := by
        rw [single]
        exact removesPassword_managing _ managesOne
      generalize transaction.command = command at moves
      rcases (connectedClient_eq_some connected).2 with ⟨occupant, here⟩
      refine ⟨accounts, bound, ?_, ?_⟩
      · intro other member
        rw [pending] at member
        rcases List.mem_append.mp member with before | added
        · exact queued other before
        · cases moves with
          | opened => cases added
          | discarded => cases added
          | committed open_ =>
              rw [List.mem_singleton.mp added]
              exact waiting block.client occupant open_ here waits
      · intro slot id opened occupied waitsNext
        rw [clients, id_setWaitingBlock] at occupied
        rw [clients, clients_setWaitingBlock] at waitsNext
        split at waitsNext
        · cases moves with
          | committed => cases waitsNext
          | discarded => cases waitsNext
          | opened =>
              cases waitsNext
              exact valid _ own (spared _)
        · exact waiting slot id opened occupied waitsNext

omit [DecidableEq K] in
/-- A connection gets a slot of the table, and a constant password. -/
theorem Unrevoked.connect (unrevoked : Unrevoked config state) {slot : Nat}
    (available : getAvailableClientSlot config.maxClients state.clients
      state.lastConnectionClientId = some slot) :
    Unrevoked config { state with
      clients := Function.update state.clients slot
        (newClient config state.passwords state.lastConnectionClientId)
      clientCount := state.clientCount + 1
      lastConnectionClientId := state.lastConnectionClientId + 1 } := by
  have inTable : slot < config.maxClients := by
    unfold getAvailableClientSlot at available
    rcases Nat.eq_zero_or_pos config.maxClients with none | some
    · rw [none] at available
      cases available
    · exact RingWalk.walk_lt (Nat.mod_lt _ some) available
  have constant : state.passwords.Valid
      (newClient config state.passwords state.lastConnectionClientId).password := by
    refine .inl ?_
    show (if state.passwords.list.length = 0 then defaultPassword else emptyPassword) < 3
    split <;> decide
  refine ⟨⟨unrevoked.accounts.sound, ?_⟩, ?_, unrevoked.pending, ?_⟩
  · intro other id occupied
    simp only [Function.update_apply] at occupied ⊢
    split at occupied
    · next here =>
        rw [if_pos here]
        exact constant
    · next elsewhere =>
        rw [if_neg elsewhere]
        exact unrevoked.accounts.held other id occupied
  · intro other id occupied
    simp only [Function.update_apply] at occupied
    split at occupied
    · next here => exact here ▸ inTable
    · exact unrevoked.bound other id occupied
  · intro other id block occupied waits
    simp only [Function.update_apply] at occupied waits
    split at occupied
    · next here =>
        rw [if_pos here] at waits
        cases waits
    · next elsewhere =>
        rw [if_neg elsewhere] at waits
        exact unrevoked.waiting other id block occupied waits

omit [DecidableEq K] in
/-- A command joins the open block of its client. -/
theorem Unrevoked.append (unrevoked : Unrevoked config state) {slot id : Nat}
    {block longer : WaitingBlock σ D} (occupied : (state.clients slot).id = some id)
    (waits : (state.clients slot).waitingBlock = some block)
    (own : longer.password = block.password) :
    Unrevoked config (state.setWaitingBlock slot (some longer)) := by
  have same : SamePasswords state (state.setWaitingBlock slot (some longer)) :=
    SamePasswords.updateClient (fun _ => rfl) fun _ => .inl rfl
  refine ⟨unrevoked.accounts.same same, ?_, unrevoked.pending, ?_⟩
  · intro other occupant here
    rw [id_setWaitingBlock] at here
    exact unrevoked.bound other occupant here
  · intro other occupant opened here waitsNext
    rw [id_setWaitingBlock] at here
    rw [clients_setWaitingBlock] at waitsNext
    split at waitsNext
    · cases waitsNext
      rw [own]
      exact unrevoked.waiting slot id block occupied waits
    · exact unrevoked.waiting other occupant opened here waitsNext

variable [NeZero threads]

theorem Unrevoked.step {action : Action σ D threads} (unrevoked : Unrevoked config state)
    (safe : revokesCarried config state action = false)
    (stepped : step config state action = some next) : Unrevoked config next := by
  cases step_stepped stepped with
  | rejected => exact unrevoked
  | connected slot admitted available => exact unrevoked.connect available
  | event slot origin closed =>
      rw [addIoRequest_eq]
      exact unrevoked.congr rfl rfl rfl
  | popped thread operation rest idle queue => exact unrevoked.congr rfl rfl rfl
  | dropped thread operation held gone => exact unrevoked.congr rfl rfl rfl
  | terminated thread operation id found held occupied type same =>
      have removed : SamePasswords state (state.updateClient found Client.removed) :=
        SamePasswords.updateClient (fun _ => rfl) fun _ => .inr rfl
      refine unrevoked.change { removed with } ?_ fun _ member => member
      intro slot
      simp only [State.record, State.setActivity, State.updateThread, State.updateClient,
        Function.update_apply]
      split
      · exact .inr rfl
      · exact .inl rfl
  | reading thread operation id held occupied type => exact unrevoked.congr rfl rfl rfl
  | wrote thread operation id sequence toWrite produced held occupied type =>
      exact unrevoked.congr rfl rfl rfl
  | locked thread input allocated slot origin id activity occupied =>
      exact unrevoked.congr rfl rfl rfl
  | unknown thread name allocated slot origin id activity occupied =>
      rw [addIoRequest_eq]
      exact unrevoked.congr rfl rfl rfl
  | limited thread command args slot origin id activity occupied =>
      exact unrevoked.congr rfl rfl rfl
  | queued thread command args slot origin id block activity occupied waiting managesNone =>
      have counted : Unrevoked config (state.countCommand origin) := unrevoked.congr rfl rfl rfl
      have joined : Unrevoked config ((state.countCommand origin).setWaitingBlock slot
          (some { block with transactions := block.transactions ++
            [⟨prepareTransaction (state.clients slot) command args ⟨origin, state.sent origin⟩,
              managesNone⟩] })) := counted.append occupied waiting rfl
      exact joined.congr rfl rfl rfl
  | enqueued thread command args slot origin id activity occupied direct room =>
      refine unrevoked.enqueue occupied ?_ rfl rfl (List.append_assoc _ _ _).symm
      rfl
  | answered thread slot id tag activity occupied waiting => exact unrevoked.congr rfl rfl rfl
  | unanswered thread slot id tag waitingTx activity occupied =>
      exact unrevoked.congr rfl rfl rfl
  | ended thread slot origin activity => exact unrevoked.congr rfl rfl rfl
  | streamEnded thread slot origin activity =>
      rw [addIoRequest_eq]
      exact unrevoked.congr rfl rfl rfl
  | blockPopped block rest idle queue =>
      refine unrevoked.congr rfl rfl ?_
      rw [State.pending, State.pending, idle, queue]
      rfl
  | executed block next held ran => exact unrevoked.run held (unrevoked.spares held safe) ran
  | responded slot tag toWrite produced responding =>
      rw [addIoRequest_eq]
      refine unrevoked.congr rfl rfl ?_
      rw [State.pending, State.pending, responding]
      rfl

end Steps

/-! ## The turns of a block -/

section Turns

variable [DecidableEq K] {config : Config σ D K} {state next mid : State σ D K threads}
  {client : Option Nat} {password : Nat}

/-- A client keeps a valid password, connected or not, while none is removed. -/
theorem PasswordStep.holder {entry : Entry D} {command : Command σ D} {slot : Nat}
    (step : PasswordStep config entry state command next)
    (valid : state.passwords.Valid (state.clients slot).password)
    (removesNone : ∀ input, pwdArguments "REMOVE" command entry.args ≠ some [input]) :
    next.passwords.Valid (next.clients slot).password := by
  cases step with
  | kept _ _ same =>
      rw [same.passwords, same.password]
      exact valid
  | authorized other index input own found =>
      simp only [State.updateClient, Function.update_apply]
      split
      · exact .inr (Passwords.getD_mem (Passwords.wherePassword_found found).1)
      · exact valid
  | added data value held permissions _ asked absent holds allowed allocated added =>
      rcases addPassword_cases added with ⟨_, rfl⟩ | ⟨other, _, _, rfl⟩
      · exact valid.imp_right fun member => List.mem_append_left _ member
      · simp only [clients_fullAt]
        split
        · exact .inl (show fullPassword < 3 by decide)
        · exact valid.imp_right fun member => List.mem_append_left _ member
  | edited input value target held permissions asked found holds allowed => exact valid
  | removed input index _ asked found removed => exact absurd asked (removesNone input)

/-- PWD REMOVE is one of the commands that take passwords from clients. -/
theorem resetsPasswords_of_removes {command : Command σ D} {args : List Bytes} {input : Bytes}
    (asked : pwdArguments "REMOVE" command args = some [input]) :
    resetsPasswords command args = true := by
  unfold pwdArguments at asked
  split at asked
  · split at asked
    · next named => exact decide_eq_true named
    · cases asked
  · cases asked

/-- In the middle of a block its client holds a valid password, even if the block has
just ended it. -/
theorem executeTransactions_holder {exec : Tag} {transactions : List (QueuedTransaction σ D)}
    {results : List Bytes} {slot id : Nat} (accounts : Accounts state)
    (occupied : (state.clients slot).id = some id)
    (spared : (∀ transaction ∈ transactions,
        killsClient transaction.val.command transaction.val.args = false) ∨
      ∀ transaction ∈ transactions,
        resetsPasswords transaction.val.command transaction.val.args = false)
    (executed : executeTransactions config client password exec state transactions =
      some (mid, results)) : mid.passwords.Valid (mid.clients slot).password := by
  rcases spared with survives | keeps
  · have kept := executeTransactions_induction
      (fun after => Accounts after ∧ (after.clients slot).id = some id) ?_ ⟨accounts, occupied⟩
      executed
    · exact kept.1.held slot id kept.2
    · intro transaction member before after response kept ran
      refine ⟨kept.1.executeTransaction ran, ?_⟩
      rcases (executeTransaction_undisturbed ran).id slot with same | ⟨kills, _⟩
      · rw [same]
        exact kept.2
      · rw [survives transaction member] at kills
        cases kills
  · refine executeTransactions_induction
      (fun after => after.passwords.Valid (after.clients slot).password) ?_
      (accounts.held slot id occupied) executed
    intro transaction member before after response valid ran
    rcases executeTransaction_passwordStep ran with ⟨next, step, passwords, clients⟩
    rw [passwords, clients]
    apply step.holder valid
    intro input asked
    have resets : resetsPasswords transaction.val.command transaction.val.args = true :=
      resetsPasswords_of_removes asked
    rw [keeps transaction member] at resets
    cases resets

/-- When a transaction of a MULTI block gets its turn, the password of the block, those
of all clients and that of the block's own client are valid. -/
def TurnsAuthorized (config : Config σ D K) (state : State σ D K threads)
    (block : TransactionBlock σ D) : Prop :=
  ∀ exec first transaction rest mid results,
    block.data = .multiple exec (first ++ transaction :: rest) →
    executeTransactions config (connectedClient state block.client) block.password exec state
      first = some (mid, results) →
    Accounts mid ∧ mid.passwords.Valid block.password ∧
      ∀ slot, connectedClient state block.client = some slot →
        mid.passwords.Valid (mid.clients slot).password

theorem Unrevoked.turns (unrevoked : Unrevoked config state) {block : TransactionBlock σ D}
    (held : state.txThread = .popped block) (spares : Spares config state block) :
    TurnsAuthorized config state block := by
  intro exec first transaction rest mid results data executed
  have all : block.transactions =
      first.map Subtype.val ++ (transaction.val :: rest.map Subtype.val) := by
    rw [TransactionBlock.transactions, data]
    exact List.map_append
  rcases executeTransactions_valid unrevoked.accounts executed with ⟨accounts, valid⟩
  refine ⟨accounts, ?_, ?_⟩
  · apply (valid block.password (unrevoked.pending block (held_block held)) ?_).1
    have own := spares.own
    rw [all, List.dropLast_append_of_ne_nil (List.cons_ne_nil _ _), removesPassword,
      List.any_append, Bool.or_eq_false_iff] at own
    exact own.1
  · intro slot connected
    rcases connectedClient_eq_some connected with ⟨rfl, id, occupied⟩
    have inside : ∀ {test : Command σ D → List Bytes → Bool}, block.anyCommand test = false →
        ∀ other ∈ first, test other.val.command other.val.args = false := by
      intro test none other member
      rw [TransactionBlock.anyCommand, all] at none
      exact Bool.eq_false_iff.mpr (List.any_eq_false.mp none other.val
        (List.mem_append_left _ (List.mem_map_of_mem member)))
    exact executeTransactions_holder unrevoked.accounts occupied
      (spares.client.imp inside inside) executed

end Turns

/-! ## Whole runs -/

section Runs

variable [NeZero threads] [DecidableEq K]

end Runs

end TellyDB.Server
