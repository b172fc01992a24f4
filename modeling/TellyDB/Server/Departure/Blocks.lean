import TellyDB.Commands.Data.Departed
import TellyDB.Server.Departure

/-!
Owns the execution of a block whose client is gone: `execute_transaction_block` with a client that
is NULL, which it compares with the same block for a client that is connected.
-/

namespace TellyDB.Server

open Resp
open Commands (Argument Mpf)
open Commands.Data (Databases SameValues)

variable {K : Type} {threads : Nat}

/-! ## Blocks -/

/-- A command of the table. -/
inductive TableCommand where
  | data (command : Commands.Data.DataCommand)
  | server (served : ServerCommand)

/-- A `Transaction`. Its arguments are pieces of a read buffer, its database is named by its
place. -/
structure Call where
  command : TableCommand
  args : List Argument
  database : Nat
  tag : Tag

/-- A block that was taken from the transaction queue. -/
inductive Block where
  | direct (call : Call)
  | multiple (exec : Tag) (calls : List Call)

/-- What a command on the databases leaves, with the database that SELECT gives its client. -/
def State.leave (state : State Databases Nat K threads) (client : Option Nat)
    (outcome : Commands.Data.Outcome) : State Databases Nat K threads :=
  let state := { state with databases := outcome.databases }
  match client, outcome.selected with
  | some slot, some database =>
      state.updateClient slot fun client => { client with database := database }
  | _, _ => state

section Execution

variable [DecidableEq K] (config : Config Databases Nat K) (environment : Environment) (mpf : Mpf)
  (clock : Option Nat)

/-- `execute_transaction`, and whether there is something to send to the client. -/
def Call.execute (call : Call) (state : State Databases Nat K threads) (client : Option Nat)
    (password : Nat) (block : Option Tag) : Option (State Databases Nat K threads × Bool) :=
  match call.command with
  | .data command => do
      let held ← state.passwords.permissions password
      let protover := client.map fun slot => (state.clients slot).protover
      let outcome ← Commands.Data.executeTransaction clock (command.command mpf)
        ⟨protover, call.args, held⟩ call.database state.databases
      some (state.leave client outcome, outcome.reply ≠ .empty)
  | .server served => do
      let (state, response) ← executeTransaction config state client password
        ⟨served.record environment, call.args.map Argument.bytes, call.database, call.tag⟩ block
      some (state, response.bytes.length ≠ 0)

/-- The loop of a TX_MULTIPLE block. -/
def executeCalls (client : Option Nat) (password : Nat) (exec : Tag) :
    State Databases Nat K threads → List Call → Option (State Databases Nat K threads)
  | state, [] => some state
  | state, call :: rest => do
      let (state, _) ← call.execute config environment mpf clock state client password (some exec)
      executeCalls client password exec state rest

/-- `execute_transaction_block`. A reply is sent by `add_io_request`, which reads the id of the
client, and that of a TX_MULTIPLE block is put together in its `write_buf`; whether it fits is left
open here. -/
def Block.execute (block : Block) (state : State Databases Nat K threads) (client : Option Nat)
    (password : Nat) : Option (State Databases Nat K threads) :=
  match block with
  | .direct call => do
      let (state, sends) ← call.execute config environment mpf clock state client password none
      if sends then client.map fun _ => state else some state
  | .multiple exec calls => do
      let state ← executeCalls config environment mpf clock client password exec state calls
      client.map fun _ => state

end Execution

/-- The client is sent an error for missing permissions, or the handler uses it. -/
def Call.AnswersClient [DecidableEq K] (config : Config Databases Nat K) (environment : Environment)
    (mpf : Mpf) (clock : Option Nat) (call : Call) (state : State Databases Nat K threads)
    (held : Permissions) : Prop :=
  match call.command with
  | .data command =>
      command.AnswersClient mpf clock call.args held call.database state.databases
  | .server served =>
      let record : Command Databases Nat := served.record environment
      held &&& record.permissions ≠ record.permissions ∨
        served.UsesClient config state.passwords held (call.args.map Argument.bytes) call.tag

/-- A TX_DIRECT block has nothing to do with its client. -/
def Block.Passes [DecidableEq K] (config : Config Databases Nat K) (environment : Environment)
    (mpf : Mpf) (clock : Option Nat) (block : Block) (state : State Databases Nat K threads)
    (password : Nat) : Prop :=
  match block with
  | .direct call => ∀ held, state.passwords.permissions password = some held →
      ¬call.AnswersClient config environment mpf clock state held
  | .multiple _ _ => False

theorem databases_leave (state : State Databases Nat K threads) (client : Option Nat)
    (outcome : Commands.Data.Outcome) :
    (state.leave client outcome).databases = outcome.databases := by
  unfold State.leave
  split
  · rfl
  · rfl

section Departed

variable [DecidableEq K] {config : Config Databases Nat K} {environment : Environment} {mpf : Mpf}
  {clock : Option Nat} {state : State Databases Nat K threads} {slot password : Nat}
  {held : Permissions}

/-! ## Transactions -/

section Served

variable {served : ServerCommand} {transaction : Transaction Databases Nat} {block : Option Tag}
  {result : State Databases Nat K threads × Response}

theorem executeTransaction_departs (command : transaction.command = served.record environment)
    (holds : state.passwords.permissions password = some held)
    (permitted : held &&& transaction.command.permissions = transaction.command.permissions)
    (passes : ¬served.UsesClient config state.passwords held transaction.args transaction.tag)
    (ran : executeTransaction config state (some slot) password transaction block =
      some result) :
    ∃ gone, executeTransaction config state none password transaction block =
      some (gone, Response.empty) ∧ Keeps state result.1 ∧ Keeps state gone := by
  rw [executeTransaction, holds, Option.bind_eq_bind, Option.bind_some,
    if_neg (not_not.mpr permitted), command] at ran ⊢
  have passed : Passes
      ((served.record environment).runOn config state (transaction.entry (some slot) password))
      ((served.record environment).runOn config state (transaction.entry none password)) :=
    runOn_passes holds passes
  obtain ⟨answered, performed, same⟩ := Option.bind_eq_some_iff.mp ran
  obtain ⟨gone, returned⟩ := passed answered performed
  have keptFor : Keeps state answered.1 := keeps_of_ensures runOn_keeps performed
  have keptWithout : Keeps state gone := keeps_of_ensures runOn_keeps returned
  cases same
  rw [returned]
  exact ⟨_, rfl, keptFor, keptWithout⟩

theorem executeTransaction_uses (command : transaction.command = served.record environment)
    (holds : state.passwords.permissions password = some held)
    (answers : held &&& transaction.command.permissions ≠ transaction.command.permissions ∨
      served.UsesClient config state.passwords held transaction.args transaction.tag)
    (ran : executeTransaction config state none password transaction block = some result) :
    result.2.bytes.length ≠ 0 := by
  rw [executeTransaction, holds, Option.bind_eq_bind, Option.bind_some] at ran
  split at ran
  · cases ran
  · next permitted =>
      have uses : served.UsesClient config state.passwords held
          (transaction.entry none password).args (transaction.entry none password).tag :=
        answers.resolve_left permitted
      rw [command] at ran
      obtain ⟨answered, performed, same⟩ := Option.bind_eq_some_iff.mp ran
      have sends : answered.2.bytes.length ≠ 0 := runOn_uses holds uses performed
      cases same
      exact sends

end Served

variable {call : Call} {block : Option Tag}

/-- `execute_transaction` reads the permissions of the password. -/
theorem Call.execute_live {client : Option Nat} {result : State Databases Nat K threads × Bool}
    (ran : call.execute config environment mpf clock state client password block = some result) :
    ∃ held, state.passwords.permissions password = some held := by
  obtain ⟨command, args, database, tag⟩ := call
  cases command with
  | data command =>
      obtain ⟨held, holds, -⟩ := Option.bind_eq_some_iff.mp ran
      exact ⟨held, holds⟩
  | server served =>
      obtain ⟨answered, ran, -⟩ := Option.bind_eq_some_iff.mp ran
      obtain ⟨held, holds, -⟩ := Option.bind_eq_some_iff.mp ran
      exact ⟨held, holds⟩

theorem Call.execute_departs (holds : state.passwords.permissions password = some held)
    (passes : ¬call.AnswersClient config environment mpf clock state held)
    {after : State Databases Nat K threads} {sends : Bool}
    (ran : call.execute config environment mpf clock state (some slot) password block =
      some (after, sends)) :
    ∃ gone, call.execute config environment mpf clock state none password block =
      some (gone, false) ∧ SameValues after.databases gone.databases := by
  obtain ⟨command, args, database, tag⟩ := call
  cases command with
  | data command =>
      obtain ⟨granted, grants, ran⟩ := Option.bind_eq_some_iff.mp ran
      rw [holds] at grants
      cases grants
      obtain ⟨outcome, performed, ran⟩ := Option.bind_eq_some_iff.mp ran
      obtain ⟨databases, departed, same⟩ :=
        Commands.Data.executeTransaction_departs passes performed
      cases ran
      refine ⟨state.leave none ⟨databases, .empty, none⟩, ?_, ?_⟩
      · simp only [Call.execute, holds, Option.bind_eq_bind, Option.bind_some, Option.map_none,
          departed]
        rfl
      · rw [databases_leave, databases_leave]
        exact same
  | server served =>
      obtain ⟨permitted, passes⟩ := not_or.mp passes
      obtain ⟨answered, performed, ran⟩ := Option.bind_eq_some_iff.mp ran
      have command : (⟨served.record environment, args.map Argument.bytes, database, tag⟩ :
          Transaction Databases Nat).command = served.record environment := rfl
      obtain ⟨gone, departed, keptFor, keptWithout⟩ :=
        executeTransaction_departs command holds (not_not.mp permitted) passes performed
      cases ran
      refine ⟨gone, ?_, ?_⟩
      · simp only [Call.execute, departed, Option.bind_eq_bind, Option.bind_some]
        rfl
      · rw [keptFor, keptWithout]
        exact Commands.Data.sameValues_refl _

theorem Call.execute_uses (holds : state.passwords.permissions password = some held)
    (answers : call.AnswersClient config environment mpf clock state held)
    {gone : State Databases Nat K threads} {sends : Bool}
    (ran : call.execute config environment mpf clock state none password block =
      some (gone, sends)) : sends = true := by
  obtain ⟨command, args, database, tag⟩ := call
  cases command with
  | data command =>
      obtain ⟨granted, grants, ran⟩ := Option.bind_eq_some_iff.mp ran
      rw [holds] at grants
      cases grants
      obtain ⟨outcome, performed, ran⟩ := Option.bind_eq_some_iff.mp ran
      have replies := Commands.Data.executeTransaction_uses answers performed
      cases ran
      exact decide_eq_true replies
  | server served =>
      obtain ⟨answered, performed, ran⟩ := Option.bind_eq_some_iff.mp ran
      have command : (⟨served.record environment, args.map Argument.bytes, database, tag⟩ :
          Transaction Databases Nat).command = served.record environment := rfl
      have sends := executeTransaction_uses command holds answers performed
      cases ran
      exact decide_eq_true sends

/-! ## Blocks -/

/-- A block that is defined for a client is defined without it and leaves the same values exactly
when it is a TX_DIRECT block that has nothing to do with its client. -/
theorem departed_iff {block : Block} {after : State Databases Nat K threads}
    (ran : block.execute config environment mpf clock state (some slot) password = some after) :
    (∃ gone, block.execute config environment mpf clock state none password = some gone ∧
        SameValues after.databases gone.databases) ↔
      block.Passes config environment mpf clock state password := by
  cases block with
  | direct call =>
      obtain ⟨⟨answered, sends⟩, executed, ran⟩ := Option.bind_eq_some_iff.mp ran
      have same : after = answered := by
        dsimp only at ran
        split at ran
        · cases ran
          rfl
        · cases ran
          rfl
      subst same
      constructor
      · intro departs held holds answers
        obtain ⟨gone, returned, -⟩ := departs
        obtain ⟨⟨left, sent⟩, departed, returned⟩ := Option.bind_eq_some_iff.mp returned
        rw [Call.execute_uses holds answers departed] at returned
        cases returned
      · intro passes
        obtain ⟨held, holds⟩ := Call.execute_live executed
        obtain ⟨gone, departed, same⟩ := Call.execute_departs holds (passes held holds) executed
        refine ⟨gone, ?_, same⟩
        rw [Block.execute, departed]
        rfl
  | multiple exec calls =>
      constructor
      · intro departs
        obtain ⟨gone, returned, -⟩ := departs
        obtain ⟨left, -, returned⟩ := Option.bind_eq_some_iff.mp returned
        cases returned
      · intro passes
        cases passes

end Departed

/-! ## A client that is gone -/

/-- A system of which no call succeeds. -/
def Environment.failing : Environment where
  time := none
  age time := time
  realtime := none
  lastSave := none
  saved := false
  backgroundSave := .threadFailed
  commandNames := []
  commandDocs _ := []
  serverSection := []
  clientsSection := []

/-- A configuration with the databases of `database/databases.c`. -/
def databasesConfig : Config Databases Nat Bytes where
  maxClients := 4
  maxTransactionBlocks := 16
  initialDatabase := 0
  getDatabase databases name := (Commands.Data.getDatabase databases name).join
  createDatabase databases name :=
    some (databases ++ [Commands.Data.allocateDatabase name], databases.length)
  derive value := value
  version := text "1.0.0"
  randomString _ := []
  passwordAllocated _ := false
  clientInfo _ _ _ _ := some []
  inline _ := false

/-- A server with one database, without keys and passwords, and the client 1 in its slot. -/
def emptyServer : State Databases Nat Bytes 2 :=
  let started := start databasesConfig [Commands.Data.allocateDatabase (text "main")] []
  (acceptClient databasesConfig started).getD started

/-- A command on the keys of that database. -/
def keyCall (command : Commands.Data.KeyCommand) (args : List Bytes) : Call :=
  ⟨.data (.key command), args.map fun argument => ⟨argument, [0]⟩, 0, ⟨1, 0⟩⟩

/-- Such a command in a block of its own, with the default password. -/
def runKeyCall (command : Commands.Data.KeyCommand) (args : List Bytes) (client : Option Nat) :
    Option (State Databases Nat Bytes 2) :=
  (Block.direct (keyCall command args)).execute databasesConfig .failing Mpf.unused none
    emptyServer client defaultPassword

theorem departed_iff_set : ∃ after, runKeyCall .set [text "k", text "v"] (some 1) = some after ∧
    ∃ gone, runKeyCall .set [text "k", text "v"] none = some gone ∧
      SameValues after.databases gone.databases := by
  have defined : (runKeyCall .set [text "k", text "v"] (some 1)).isSome := by
    decide +kernel
  obtain ⟨after, ran⟩ := Option.isSome_iff_exists.mp defined
  refine ⟨after, ran, (departed_iff ran).mpr ?_⟩
  intro held holds answers
  cases holds
  obtain denied | ⟨database, -, uses⟩ := answers
  · exact denied (by decide)
  · exact uses

/-- INCR writes the key into the `write_buf` of no client. -/
theorem not_departed_incr : ¬∀ (block : Block) (after : State Databases Nat Bytes 2),
    block.execute databasesConfig .failing Mpf.unused none emptyServer (some 1) defaultPassword =
      some after →
    ∃ gone, block.execute databasesConfig .failing Mpf.unused none emptyServer none
      defaultPassword = some gone ∧ SameValues after.databases gone.databases := by
  intro holds
  have defined : (runKeyCall .incr [text "k"] (some 1)).isSome := by
    decide +kernel
  have crashes : (runKeyCall .incr [text "k"] none).isNone := by
    decide +kernel
  obtain ⟨after, ran⟩ := Option.isSome_iff_exists.mp defined
  obtain ⟨gone, returned, -⟩ := holds _ after ran
  rw [runKeyCall, returned] at crashes
  cases crashes

end TellyDB.Server
