import TellyDB.Server.SendingOrder

/-!
Owns the sessions of connections: what SELECT, AUTH and the commands on the databases
answer when each is sent after the reply to the one before, and how the transaction
thread, which takes the session out of the transaction, compares with that.
-/

namespace TellyDB.Server

open Resp Lib

variable {σ D K : Type} {threads : Nat}

/-! ## One command after the other -/

/-- What a client has chosen: its database with SELECT, its password with AUTH. -/
structure Session (D : Type) where
  database : D
  password : Nat
deriving DecidableEq

def Client.session (client : Client σ D) : Session D := ⟨client.database, client.password⟩

/-- SELECT, AUTH, and the commands that work on the databases only. -/
def Command.usesSession : Command σ D → Bool
  | .select | .auth | .data _ => true
  | _ => false

/-- What a command leaves behind, and its reply. -/
structure Answer (σ D : Type) where
  databases : σ
  session : Session D
  reply : Bytes

section Answers

variable (config : Config σ D K) (passwords : Passwords K) (databases : σ) (session : Session D)

/-- SELECT chooses the database for the commands after it. -/
def answerSelect (args : List Bytes) : Answer σ D :=
  match args with
  | [name] =>
      match openDatabase config databases name with
      | some (databases, database) =>
          ⟨databases, { session with database := database }, respOk⟩
      | none =>
          ⟨databases, session, respErrorMessage "Memory error, cannot create new database"⟩
  | _ => ⟨databases, session, wrongArgumentError "SELECT"⟩

/-- AUTH chooses the password for the commands after it. It replaces one that was
chosen before only when `confirmed`. -/
def answerPassword [DecidableEq K] (input : Bytes) (confirmed : Bool) : Answer σ D :=
  match passwords.wherePassword config input with
  | some target =>
      if session.password = emptyPassword ∨ confirmed = true then
        ⟨databases, { session with password := passwords.list.getD target 0 }, respOk⟩
      else
        ⟨databases, session, respOkMessage <|
          "A password already in use for your client. " ++
          "If you sure to change, use command with ok argument"⟩
  | none => ⟨databases, session, respErrorMessage "This password does not exist"⟩

def answerAuth [DecidableEq K] (tag : Tag) (args : List Bytes) : Answer σ D :=
  match args with
  | [input] => answerPassword config passwords databases session input false
  | [input, ok] =>
      answerPassword config passwords databases session input (streq (config.memory tag ok) "ok")
  | _ => ⟨databases, session, wrongArgumentError "AUTH"⟩

/-- Any other command runs on the chosen database, if the permissions of the chosen
password allow it. -/
def answerData (connected : Bool) (command : DataCommand σ D) (args : List Bytes) :
    Option (Answer σ D) := do
  let held ← passwords.permissions session.password
  if held &&& command.permissions ≠ command.permissions then
    some ⟨databases, session, noPermissions⟩
  else do
    let protover := if connected then some ProtocolVersion.resp2 else none
    let (databases, response) ←
      command.run ⟨protover, args, session.database, held⟩ databases
    some ⟨databases, session, response.bytes⟩

/-- The answer to a command; SELECT and AUTH do nothing for a client that is gone. -/
def answer [DecidableEq K] (connected : Bool) (command : Command σ D) (tag : Tag)
    (args : List Bytes) : Option (Answer σ D) :=
  match command with
  | .select =>
      some (if connected then answerSelect config databases session args
        else ⟨databases, session, []⟩)
  | .auth =>
      some (if connected then answerAuth config passwords databases session tag args
        else ⟨databases, session, []⟩)
  | .data command => answerData passwords databases session connected command args
  | _ => none

end Answers

/-- A client that is gone keeps its session. -/
theorem answer_departed [DecidableEq K] {config : Config σ D K} {passwords : Passwords K}
    {databases : σ} {session : Session D} {command : Command σ D} {args : List Bytes}
    {answered : Answer σ D}
    {tag : Tag}
    (expected : answer config passwords databases session false command tag args =
      some answered) :
    answered.session = session := by
  cases command with
  | select | auth =>
      cases expected
      rfl
  | data data =>
      rcases Option.bind_eq_some_iff.mp expected with ⟨held, _, expected⟩
      split at expected
      · cases expected
        rfl
      · rcases Option.bind_eq_some_iff.mp expected with ⟨ran, _, expected⟩
        cases expected
        rfl
  | _ => cases expected

/-- A command that gets its turn. -/
structure Request (σ D : Type) where
  tag : Tag
  command : Command σ D
  args : List Bytes
  connected : Bool

/-- The databases, the session of each connection, and the replies so far. -/
structure Served (σ D : Type) where
  databases : σ
  sessions : Nat → Session D
  replies : List Bytes

/-- The turn of one command whose client has waited for all replies before. -/
def serve [DecidableEq K] (config : Config σ D K) (passwords : Passwords K)
    (served : Served σ D) (request : Request σ D) : Option (Served σ D) :=
  let session := served.sessions request.tag.origin
  (answer config passwords served.databases session request.connected request.command
    request.tag request.args).map fun answered =>
      { databases := answered.databases
        sessions := Function.update served.sessions request.tag.origin answered.session
        replies := served.replies ++ [answered.reply] }

/-- The command may be answered differently in the two sessions: it is one on the
databases, and they or the permissions differ, or an AUTH that needs a confirmation
in one of them only. -/
def Session.differs [DecidableEq D] (passwords : Passwords K) (session other : Session D) :
    Command σ D → Bool
  | .data _ => decide (session.database ≠ other.database) ||
      decide (passwords.permissions session.password ≠ passwords.permissions other.password)
  | .auth => decide (session.password = emptyPassword) != decide (other.password = emptyPassword)
  | _ => false

section Differences

variable [DecidableEq D] {passwords : Passwords K} {session other third : Session D}
  {command : Command σ D}

theorem differs_data {data : DataCommand σ D} :
    session.differs passwords other (.data data) = false ↔
      session.database = other.database ∧
        passwords.permissions session.password = passwords.permissions other.password := by
  simp [Session.differs]

theorem differs_auth :
    session.differs passwords other (.auth : Command σ D) = false ↔
      (session.password = emptyPassword ↔ other.password = emptyPassword) := by
  simp [Session.differs]

theorem differs_self : session.differs passwords session command = false := by
  cases command with
  | data data => exact differs_data.mpr ⟨rfl, rfl⟩
  | auth => exact differs_auth.mpr Iff.rfl
  | _ => rfl

theorem differs_trans (first : session.differs passwords other command = false)
    (second : other.differs passwords third command = false) :
    session.differs passwords third command = false := by
  cases command with
  | data data =>
      rw [differs_data] at first second ⊢
      exact ⟨first.1.trans second.1, first.2.trans second.2⟩
  | auth =>
      rw [differs_auth] at first second ⊢
      exact first.trans second
  | _ => rfl

end Differences

/-! ## A transaction and its answer -/

/-- The state after a command that was answered: the session of its client is the one
the answer leaves, and nothing else of the clients has changed. -/
structure Answered (client : Option Nat) (answered : Answer σ D)
    (state next : State σ D K threads) : Prop where
  databases : next.databases = answered.databases
  passwords : next.passwords = state.passwords
  session : ∀ slot, client = some slot → (next.clients slot).session = answered.session
  others : ∀ slot, client ≠ some slot → next.clients slot = state.clients slot
  protover : ∀ slot, (next.clients slot).protover = (state.clients slot).protover

/-- A computation that, if it does not crash, replies and does what the answer says. -/
def Outcome.Answers (outcome : Outcome σ D K threads) (client : Option Nat)
    (answered : Answer σ D) (state : State σ D K threads) : Prop :=
  ∀ next response, outcome = some (next, response) →
    response.bytes = answered.reply ∧ Answered client answered state next

section Commands

variable {config : Config σ D K} {state next : State σ D K threads} {client : Option Nat}
  {session : Session D} {answered : Answer σ D} {entry : Entry D}

theorem clients_updateClient {slot : Nat} {update : Client σ D → Client σ D} (other : Nat) :
    (state.updateClient slot update).clients other =
      if other = slot then update (state.clients slot) else state.clients other :=
  Function.update_apply _ _ _ _

/-- Only the databases have changed. -/
theorem Answered.databases_only {databases : σ} {reply : Bytes}
    (own : ∀ slot, client = some slot → (state.clients slot).session = session) :
    Answered client ⟨databases, session, reply⟩ state { state with databases := databases } :=
  ⟨rfl, rfl, own, fun _ _ => rfl, fun _ => rfl⟩

theorem Answered.updateClient {slot : Nat} {update : Client σ D → Client σ D}
    (own : client = some slot)
    (session : (update (state.clients slot)).session = answered.session)
    (protover : (update (state.clients slot)).protover = (state.clients slot).protover) :
    Answered client answered state
      (State.updateClient { state with databases := answered.databases } slot update) where
  databases := rfl
  passwords := rfl
  session other same := by
    rw [own, Option.some.injEq] at same
    rw [← same, clients_updateClient, if_pos rfl]
    exact session
  others other different := by
    rw [clients_updateClient, if_neg]
    intro same
    rw [own, same] at different
    exact different rfl
  protover other := by
    rw [clients_updateClient]
    split
    · next same =>
        rw [same]
        exact protover
    · rfl

theorem answers_literalReply {bytes : Bytes} (same : bytes = answered.reply)
    (done : Answered client answered state next) :
    (literalReply next bytes).Answers client answered state := by
  intro after response returned
  cases returned
  exact ⟨same, done⟩

theorem answers_bufferedReply {slot : Nat} {bytes : Bytes} (same : bytes = answered.reply)
    (done : Answered client answered state next) :
    (bufferedReply next slot bytes).Answers client answered state := by
  intro after response returned
  unfold bufferedReply at returned
  split at returned
  · cases returned
    exact ⟨same, { done with }⟩
  · cases returned

/-- A command that does nothing for a client that is gone. -/
theorem answers_passNoClient {rest : Nat → Outcome σ D K threads}
    (connected : ∀ slot, client = some slot →
      (rest slot).Answers client answered state) :
    (passNoClient state client rest).Answers client
      (if client.isSome then answered else ⟨state.databases, session, []⟩) state := by
  cases client with
  | none =>
      intro after response returned
      cases returned
      exact ⟨rfl, .databases_only nofun⟩
  | some slot => exact connected slot rfl

theorem runSelect_answers
    (own : ∀ slot, entry.client = some slot → (state.clients slot).session = session) :
    (runSelect config state entry).Answers entry.client
      (if entry.client.isSome then answerSelect config state.databases session entry.args
        else ⟨state.databases, session, []⟩) state := by
  have kept : ∀ reply : Bytes,
      Answered entry.client ⟨state.databases, session, reply⟩ state state :=
    fun _ => .databases_only own
  unfold runSelect
  apply answers_passNoClient
  intro slot here
  unfold answerSelect
  rcases entry.args with _ | ⟨name, _ | ⟨second, rest⟩⟩
  · exact answers_literalReply rfl (kept _)
  · simp only
    cases openDatabase config state.databases name with
    | none => exact answers_literalReply rfl (kept _)
    | some found =>
        refine answers_literalReply rfl (.updateClient here ?_ rfl)
        rw [← own slot here]
        rfl
  · exact answers_literalReply rfl (kept _)

theorem runAuth_answers [DecidableEq K]
    (own : ∀ slot, entry.client = some slot → (state.clients slot).session = session)
    (same : entry.password = emptyPassword ↔ session.password = emptyPassword) :
    (runAuth config state entry).Answers entry.client
      (if entry.client.isSome then
        answerAuth config state.passwords state.databases session entry.tag entry.args
        else ⟨state.databases, session, []⟩) state := by
  have kept : ∀ reply : Bytes,
      Answered entry.client ⟨state.databases, session, reply⟩ state state :=
    fun _ => .databases_only own
  unfold runAuth
  apply answers_passNoClient
  intro slot here
  have authorizes : ∀ (input : Bytes) (confirmed : Bool),
      (authorize config state entry slot input confirmed).Answers entry.client
        (answerPassword config state.passwords state.databases session input confirmed)
        state := by
    intro input confirmed
    unfold authorize answerPassword
    cases state.passwords.wherePassword config input with
    | none => exact answers_literalReply rfl (kept _)
    | some target =>
        simp only
        have flipped : (entry.password ≠ emptyPassword ∧ confirmed = false) ↔
            ¬(session.password = emptyPassword ∨ confirmed = true) := by
          rw [not_or, Bool.not_eq_true, ← same]
        by_cases refused : session.password = emptyPassword ∨ confirmed = true
        · rw [if_pos refused, if_neg fun asks => flipped.mp asks refused]
          refine answers_literalReply rfl (.updateClient here ?_ rfl)
          rw [← own slot here]
          rfl
        · rw [if_neg refused, if_pos (flipped.mpr refused)]
          exact answers_literalReply rfl (kept _)
  unfold answerAuth
  rcases entry.args with _ | ⟨input, _ | ⟨ok, _ | ⟨third, rest⟩⟩⟩
  · exact answers_literalReply rfl (kept _)
  · exact authorizes _ _
  · exact authorizes _ _
  · exact answers_literalReply rfl (kept _)

theorem runData_answers {command : DataCommand σ D} {permissions : Permissions}
    (own : ∀ slot, entry.client = some slot →
      (state.clients slot).session = session ∧ (state.clients slot).protover = .resp2)
    (holds : state.passwords.permissions entry.password = some permissions)
    (database : entry.database = session.database) {response : Response}
    (returned : runData state entry command = some (next, response)) :
    ∃ databases ran, command.run
        ⟨if entry.client.isSome then some .resp2 else none, entry.args, session.database,
          permissions⟩ state.databases = some (databases, ran) ∧
      response.bytes = ran.bytes ∧
      Answered entry.client ⟨databases, session, ran.bytes⟩ state next := by
  have protover : (entry.client.map fun slot => (state.clients slot).protover) =
      if entry.client.isSome then some .resp2 else none := by
    cases here : entry.client with
    | none => rfl
    | some slot => exact congrArg some (own slot here).2
  unfold runData at returned
  rcases Option.bind_eq_some_iff.mp returned with ⟨held, same, returned⟩
  rw [holds, Option.some.injEq] at same
  rw [← same, protover, database] at returned
  rcases Option.bind_eq_some_iff.mp returned with ⟨⟨databases, ran⟩, runs, returned⟩
  have done : Answered entry.client ⟨databases, session, ran.bytes⟩ state
      { state with databases := databases } := .databases_only fun slot here => (own slot here).1
  refine ⟨databases, ran, runs, ?_⟩
  simp only at returned
  split at returned
  · rcases Option.bind_eq_some_iff.mp returned with ⟨slot, _, returned⟩
    exact answers_bufferedReply rfl done next response returned
  · exact answers_literalReply rfl done next response returned

end Commands

/-! ## The transaction thread -/

section Transactions

variable [DecidableEq K] {config : Config σ D K} {state after : State σ D K threads}
  {client : Option Nat} {session : Session D} {password : Nat} {transaction : Transaction σ D}
  {response : Response}

omit [DecidableEq K] in
theorem usesSession_managesNone {command : Command σ D} (uses : command.usesSession = true) :
    command.waitingTx = false := by
  cases command with
  | multi | exec | discard => cases uses
  | _ => rfl

omit [DecidableEq K] in
/-- Only a command on the databases may be refused. -/
theorem refuses_usesSession {passwords : Passwords K} {command : Command σ D}
    (uses : command.usesSession = true) (refused : refuses passwords password command = true) :
    ∃ data, command = .data data := by
  have nothing : ∀ held : Permissions, held &&& Permission.none = Permission.none :=
    fun held => BitVec.and_zero
  cases command with
  | data data => exact ⟨data, rfl⟩
  | select | auth =>
      rcases (Option.any_eq_true _ _).mp refused with ⟨held, _, lacks⟩
      exact absurd (nothing held) (bne_iff_ne.mp lacks)
  | _ => cases uses

/-- A command that is allowed runs, and its execution is all that is recorded. -/
theorem executeTransaction_allowed (managesNone : transaction.command.waitingTx = false)
    (allowed : refuses state.passwords password transaction.command = false)
    (executed : executeTransaction config state client password transaction none =
      some (after, response)) :
    ∃ ran, transaction.command.runOn config state (transaction.entry client password) =
        some (ran, response) ∧ ran.executions = state.executions ∧
      after = ran.record
        [.executed ⟨transaction, password, client.isSome, none, response.bytes⟩] := by
  rcases executeTransaction_cases executed with ⟨_, _, _, refused, _⟩ | ⟨ran, returned, same⟩
  · rw [allowed] at refused
    cases refused
  · rcases runOn_ordinarily managesNone _ returned with ⟨next, ordinary, replies⟩
    have shape : ran = { next with writeBufs := ran.writeBufs } := replies.eq
    have trace : ran.trace = state.trace := by
      rw [shape]
      exact ordinary.trace
    refine ⟨ran, returned, ?_, same⟩
    rw [State.executions, trace, State.executions]

/-- A transaction that took a session out of date for nothing its command looks at is
answered as if its client had waited. -/
theorem executeTransaction_answers [DecidableEq D]
    (uses : transaction.command.usesSession = true)
    (own : ∀ slot, client = some slot →
      (state.clients slot).session = session ∧ (state.clients slot).protover = .resp2)
    (current : Session.differs state.passwords ⟨transaction.database, password⟩ session
      transaction.command = false)
    (executed : executeTransaction config state client password transaction none =
      some (after, response)) :
    ∃ answered, answer config state.passwords state.databases session client.isSome
        transaction.command transaction.tag transaction.args = some answered ∧
      Answered client answered state after ∧
      after.executions = state.executions ++
        [⟨transaction, password, client.isSome, none, answered.reply⟩] := by
  have same := fun slot here => (own slot here).1
  cases refused : refuses state.passwords password transaction.command with
  | true =>
      rcases refuses_usesSession uses refused with ⟨data, isData⟩
      rcases executeTransaction_refused executed refused with ⟨slot, here, _, rfl⟩
      rw [isData] at refused current ⊢
      rcases (Option.any_eq_true _ _).mp refused with ⟨held, holds, lacks⟩
      have permitted : state.passwords.permissions session.password = some held :=
        (differs_data.mp current).2 ▸ holds
      refine ⟨⟨state.databases, session, noPermissions⟩, ?_, ?_, ?_⟩
      · rw [answer, answerData, permitted]
        exact if_pos (bne_iff_ne.mp lacks)
      · rw [writeMessage, writeToSocket_eq]
        exact { Answered.databases_only same with }
      · rw [executions_record, (writeMessage_quiet slot _ _).2, here]
        rfl
  | false =>
      rcases executeTransaction_allowed (usesSession_managesNone uses) refused executed with
        ⟨ran, returned, executions, rfl⟩
      have answers : ∃ answered, answer config state.passwords state.databases session
          client.isSome transaction.command transaction.tag transaction.args = some answered ∧
          response.bytes = answered.reply ∧ Answered client answered state ran := by
        cases isCommand : transaction.command with
        | select =>
            rw [isCommand] at returned
            exact ⟨_, rfl, runSelect_answers same ran response returned⟩
        | auth =>
            rw [isCommand] at returned current
            exact ⟨_, rfl, runAuth_answers same (differs_auth.mp current) ran response returned⟩
        | data data =>
            rw [isCommand] at returned current refused
            rcases differs_data.mp current with ⟨database, permissions⟩
            rcases Option.bind_eq_some_iff.mp returned with ⟨held, holds, _⟩
            rcases runData_answers own holds database returned with
              ⟨databases, result, runs, bytes, done⟩
            have allowed : held &&& data.permissions = data.permissions := by
              rw [refuses, show state.passwords.permissions password = some held from holds,
                Option.any_some] at refused
              exact bne_eq_false_iff_eq.mp refused
            refine ⟨⟨databases, session, result.bytes⟩, ?_, bytes, done⟩
            rw [answer, answerData, ← permissions,
              show state.passwords.permissions password = some held from holds]
            simp only [Option.bind_eq_bind, Option.bind_some]
            rw [if_neg (not_not.mpr allowed)]
            exact Option.bind_eq_some_iff.mpr ⟨(databases, result), runs, rfl⟩
        | _ =>
            rw [isCommand] at uses
            cases uses
      rcases answers with ⟨answered, expected, reply, done⟩
      refine ⟨answered, expected, { done with }, ?_⟩
      rw [executions_record, executions, reply]
      rfl

end Transactions

end TellyDB.Server
