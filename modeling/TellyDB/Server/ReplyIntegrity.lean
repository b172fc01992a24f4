import TellyDB.Server.Frame

/-!
Owns the integrity of replies: what a write request sends is what the command
that enqueued it produced, as long as no command writes its reply into a
`write_buf` that an unsent write request still refers to.
-/

namespace TellyDB.Server

open Resp Lib

variable {σ D K : Type} {threads : Nat}

/-! ## The condition -/

/-- The request is a write out of `writeBuf`. -/
def IoOpType.refersTo (writeBuf : Nat) : IoOpType → Bool
  | .write _ (.buffer referred _) _ => referred == writeBuf
  | _ => false

/-- Some I/O thread has yet to send bytes out of `writeBuf`. -/
def State.refersTo (state : State σ D K threads) (writeBuf : Nat) : Bool :=
  (List.finRange threads).any fun thread =>
    (state.ioThreads thread).operations.any fun operation => operation.type.refersTo writeBuf

/-- The reply of the block goes into the `write_buf` of its client: that of a
`TX_MULTIPLE` block always does. -/
def storesReply [DecidableEq K] (config : Config σ D K) (state : State σ D K threads)
    (block : TransactionBlock σ D) : Bool :=
  match block.data with
  | .direct transaction =>
      (executeTransaction config state (connectedClient state block.client) block.password
        transaction none).any fun result => result.2.buffered
  | .multiple _ _ => true

/-- The step executes a block whose reply overwrites a reply that is not sent. -/
def overwritesReply [DecidableEq K] (config : Config σ D K) (state : State σ D K threads) :
    Action σ D threads → Bool
  | .txExecute =>
      match state.txThread with
      | .popped block =>
          storesReply config state block && state.refersTo (state.clients block.client).writeBuf
      | _ => false
  | _ => false

/-! ## The invariant -/

/-- Everything sent so far is what its command produced. -/
def SentIntact (trace : List (Event σ D)) : Prop :=
  ∀ connection written, Event.wrote connection written ∈ trace → written.sent = written.produced

/-- An unsent write request refers to what its command produced. -/
def RequestIntact (state : State σ D K threads) (type : IoOpType) : Prop :=
  ∀ sequence toWrite produced, type = .write sequence toWrite produced →
    state.contents toWrite = produced

structure RepliesIntact (state : State σ D K threads) : Prop where
  sent : SentIntact state.trace
  requests : ∀ thread, ∀ operation ∈ (state.ioThreads thread).operations,
    RequestIntact state operation.type
  responding : ∀ slot tag toWrite produced,
    state.txThread = .responding slot tag toWrite produced → state.contents toWrite = produced

theorem contents_congr {state next : State σ D K threads}
    (writeBufs : next.writeBufs = state.writeBufs) (toWrite : ToWrite) :
    next.contents toWrite = state.contents toWrite := by
  cases toWrite with
  | bytes bytes => rfl
  | buffer writeBuf length =>
      show (next.writeBufs writeBuf).take length = (state.writeBufs writeBuf).take length
      rw [writeBufs]

theorem SentIntact.append {first second : List (Event σ D)} (one : SentIntact first)
    (two : SentIntact second) : SentIntact (first ++ second) := by
  intro connection written member
  rcases List.mem_append.mp member with before | new
  · exact one connection written before
  · exact two connection written new

theorem sentIntact_message {connection : Option Nat} {tag : Tag} {message : Bytes} :
    SentIntact (σ := σ) (D := D) (match connection with
      | none => []
      | some connection => [.wrote connection ⟨tag, message, message⟩]) := by
  intro recipient written member
  cases connection with
  | none => cases member
  | some connection =>
      rw [List.mem_singleton, Event.wrote.injEq] at member
      rw [member.2]

/-! ## What a transaction does to replies -/

/-- A transaction writes into no `write_buf` but its client's, and sends only
texts that do not change. -/
structure KeepsReplies (client : Option Nat) (state next : State σ D K threads) : Prop where
  ioThreads : next.ioThreads = state.ioThreads
  writeBuf : ∀ slot, (next.clients slot).writeBuf = (state.clients slot).writeBuf
  writeBufs : ∀ writeBuf, (∀ slot, client = some slot → (state.clients slot).writeBuf ≠ writeBuf) →
    next.writeBufs writeBuf = state.writeBufs writeBuf
  sent : SentIntact state.trace → SentIntact next.trace

section Transactions

variable {client : Option Nat} {state middle next : State σ D K threads}

theorem KeepsReplies.refl : KeepsReplies client state state :=
  ⟨rfl, fun _ => rfl, fun _ _ => rfl, id⟩

theorem KeepsReplies.trans (first : KeepsReplies client state middle)
    (second : KeepsReplies client middle next) : KeepsReplies client state next where
  ioThreads := second.ioThreads.trans first.ioThreads
  writeBuf slot := (second.writeBuf slot).trans (first.writeBuf slot)
  writeBufs writeBuf other := by
    rw [second.writeBufs writeBuf, first.writeBufs writeBuf other]
    intro slot own
    rw [first.writeBuf slot]
    exact other slot own
  sent intact := second.sent (first.sent intact)

theorem Ordinary.keepsReplies {resets kills : Prop}
    (ordinary : Ordinary resets kills client state next) : KeepsReplies client state next where
  ioThreads := ordinary.ioThreads
  writeBuf := ordinary.writeBuf
  writeBufs writeBuf _ := congrFun ordinary.writeBufs writeBuf
  sent intact := by
    rw [ordinary.trace]
    exact intact

theorem KeepsReplies.record {events : List (Event σ D)} (intact : SentIntact events) :
    KeepsReplies client state (state.record events) :=
  ⟨rfl, fun _ => rfl, fun _ _ => rfl, fun before => before.append intact⟩

theorem Manages.keepsReplies {config : Config σ D K} {entry : Entry D} {command : Command σ D}
    (manages : Manages config entry state command next) :
    KeepsReplies entry.client state next where
  ioThreads := (manages.undisturbed False False).ioThreads
  writeBuf := (manages.undisturbed False False).writeBuf
  writeBufs writeBuf _ := congrFun manages.writeBufs writeBuf
  sent intact := by
    rcases manages.trace with ⟨events, appended, managing⟩
    rw [appended]
    apply intact.append
    intro connection written member
    cases managing _ member

theorem Replies.keepsReplies {result : State σ D K threads × Response}
    (replies : Replies client state result) : KeepsReplies client state result.1 := by
  cases replies with
  | literal bytes => exact KeepsReplies.refl
  | buffered slot bytes own =>
      refine ⟨rfl, fun _ => rfl, fun writeBuf other => ?_, id⟩
      exact Function.update_of_ne (other slot own).symm _ _

/-- The request that will be made for a reply refers to its bytes. -/
theorem Replies.contents {result : State σ D K threads × Response} {slot : Nat}
    (replies : Replies client state result) (own : client = some slot) :
    result.1.contents (result.2.toWrite (result.1.clients slot).writeBuf) = result.2.bytes := by
  cases replies with
  | literal bytes => rfl
  | buffered other bytes same =>
      rw [own, Option.some.injEq] at same
      subst same
      simp [State.contents, Response.toWrite, State.store]

variable [DecidableEq K] {config : Config σ D K} {password : Nat}
  {transaction : Transaction σ D} {block : Option Tag} {response : Response}

theorem runOn_keepsReplies {command : Command σ D} {entry : Entry D}
    (ran : command.runOn config state entry = some (next, response)) :
    KeepsReplies entry.client state next ∧
      (response.buffered = false → next.writeBufs = state.writeBufs) ∧
      ∀ slot, entry.client = some slot →
        next.contents (response.toWrite (next.clients slot).writeBuf) = response.bytes := by
  rcases runOn_cases ran with ⟨done, does, replies⟩
  have kept : KeepsReplies entry.client state done ∧ done.writeBufs = state.writeBufs := by
    rcases does with ⟨_, manages⟩ | ⟨_, ordinary⟩
    · exact ⟨manages.keepsReplies, manages.writeBufs⟩
    · exact ⟨ordinary.keepsReplies, ordinary.writeBufs⟩
  refine ⟨kept.1.trans replies.keepsReplies, ?_, fun slot own => replies.contents own⟩
  intro unbuffered
  cases replies with
  | literal bytes => exact kept.2
  | buffered slot bytes own => cases unbuffered

theorem executeTransaction_keepsReplies
    (executed : executeTransaction config state client password transaction block =
      some (next, response)) :
    KeepsReplies client state next ∧
      (response.buffered = false → next.writeBufs = state.writeBufs) ∧
      ∀ slot, client = some slot →
        next.contents (response.toWrite (next.clients slot).writeBuf) = response.bytes := by
  have silent : ∀ execution : Execution σ D, SentIntact [Event.executed execution] := by
    intro execution connection written member
    cases List.mem_singleton.mp member
  rcases executeTransaction_cases executed with ⟨slot, rfl, rfl, _, rfl⟩ | ⟨after, ran, rfl⟩
  · rw [writeMessage, writeToSocket_eq]
    refine ⟨?_, fun _ => rfl, fun _ _ => rfl⟩
    exact (KeepsReplies.record sentIntact_message).trans (KeepsReplies.record (silent _))
  · have kept := runOn_keepsReplies ran
    exact ⟨kept.1.trans (KeepsReplies.record (silent _)), kept.2.1, kept.2.2⟩

theorem executeTransactions_keepsReplies {exec : Tag}
    {transactions : List (QueuedTransaction σ D)} {results : List Bytes}
    (executed : executeTransactions config client password exec state transactions =
      some (next, results)) : KeepsReplies client state next := by
  induction transactions generalizing state results with
  | nil =>
      cases executed
      exact KeepsReplies.refl
  | cons transaction rest inductionHypothesis =>
      rcases Option.bind_eq_some_iff.mp executed with ⟨⟨middle, response⟩, first, executed⟩
      rcases Option.bind_eq_some_iff.mp executed with ⟨⟨last, others⟩, second, executed⟩
      cases executed
      exact (executeTransaction_keepsReplies first).1.trans (inductionHypothesis second)

end Transactions

/-! ## One step -/

section Steps

variable {config : Config σ D K} {state next : State σ D K threads}

theorem requestIntact_congr (writeBufs : next.writeBufs = state.writeBufs) {type : IoOpType}
    (intact : RequestIntact state type) : RequestIntact next type := by
  intro sequence toWrite produced write
  rw [contents_congr writeBufs]
  exact intact sequence toWrite produced write

/-- Adding an intact request keeps all replies intact. -/
theorem RepliesIntact.addIoRequest [NeZero threads] (intact : RepliesIntact state) {slot origin : Nat}
    {type : IoOpType} (new : RequestIntact state type) :
    RepliesIntact (addIoRequest state slot origin type) := by
  have frame := addIoRequest_eq state slot origin type
  refine ⟨?_, ?_, ?_⟩
  · rw [frame]
    exact intact.sent
  · intro thread operation member
    refine requestIntact_congr (?_ : _ = state.writeBufs) ?_
    · rw [frame]
    rcases mem_operations_addIoRequest member with before | rfl
    · exact intact.requests thread operation before
    · exact new
  · rw [frame]
    exact intact.responding

/-- A change that leaves the `write_buf`s alone, and adds no operation. -/
theorem RepliesIntact.change (intact : RepliesIntact state)
    (writeBufs : next.writeBufs = state.writeBufs)
    (operations : ∀ thread, ∀ operation ∈ (next.ioThreads thread).operations,
      operation ∈ (state.ioThreads thread).operations)
    (txThread : next.txThread = state.txThread ∨
      ∀ slot tag toWrite produced, next.txThread ≠ .responding slot tag toWrite produced)
    (sent : SentIntact next.trace) : RepliesIntact next := by
  refine ⟨sent, ?_, ?_⟩
  · intro thread operation member
    apply requestIntact_congr writeBufs
    exact intact.requests thread operation (operations thread operation member)
  · intro slot tag toWrite produced responding
    rcases txThread with same | different
    · rw [same] at responding
      rw [contents_congr writeBufs]
      exact intact.responding slot tag toWrite produced responding
    · exact absurd responding (different slot tag toWrite produced)

/-- A change of nothing that replies depend on. -/
theorem RepliesIntact.congr (intact : RepliesIntact state)
    (writeBufs : next.writeBufs = state.writeBufs) (ioThreads : next.ioThreads = state.ioThreads)
    (txThread : next.txThread = state.txThread) (trace : next.trace = state.trace) :
    RepliesIntact next := by
  refine intact.change writeBufs ?_ (.inl txThread) ?_
  · rw [ioThreads]
    exact fun _ _ member => member
  · rw [trace]
    exact intact.sent

theorem RepliesIntact.updateOperations (intact : RepliesIntact state) {thread : Fin threads}
    {update : IoThread → IoThread}
    (operations : ∀ operation ∈ (update (state.ioThreads thread)).operations,
      operation ∈ (state.ioThreads thread).operations) :
    RepliesIntact (state.updateThread thread update) := by
  refine intact.change rfl ?_ (.inl rfl) intact.sent
  intro other operation member
  rw [operations_updateThread] at member
  split at member
  · next same =>
      rw [same]
      exact operations operation member
  · exact member

theorem RepliesIntact.setActivity (intact : RepliesIntact state) {thread : Fin threads}
    {activity : IoActivity} (free : activity.held = []) :
    RepliesIntact (state.setActivity thread activity) := by
  apply intact.updateOperations
  intro operation member
  rw [IoThread.operations, free, List.nil_append] at member
  exact List.mem_append_right _ member

theorem RepliesIntact.send (intact : RepliesIntact state) {connection : Nat} {written : Written}
    (same : written.sent = written.produced) :
    RepliesIntact (state.record [.wrote connection written]) := by
  refine intact.change rfl (fun _ _ member => member) (.inl rfl) (intact.sent.append ?_)
  intro recipient other member
  rw [List.mem_singleton, Event.wrote.injEq] at member
  rw [member.2]
  exact same

theorem RepliesIntact.record (intact : RepliesIntact state) {event : Event σ D}
    (silent : ∀ connection written, event ≠ .wrote connection written) :
    RepliesIntact (state.record [event]) := by
  refine intact.change rfl (fun _ _ member => member) (.inl rfl) (intact.sent.append ?_)
  intro connection written member
  exact absurd (List.mem_singleton.mp member).symm (silent connection written)

/-- A transaction that stores no reply, or stores it where no unsent request
refers to, keeps the requests intact. -/
theorem KeepsReplies.requests {slot : Nat} {after : State σ D K threads}
    (kept : KeepsReplies (connectedClient state slot) state after)
    (intact : RepliesIntact state)
    (free : after.writeBufs = state.writeBufs ∨
      state.refersTo (state.clients slot).writeBuf = false)
    (thread : Fin threads) (operation : IoOperation)
    (member : operation ∈ (after.ioThreads thread).operations) :
    RequestIntact after operation.type := by
  rw [kept.ioThreads] at member
  have before := intact.requests thread operation member
  rcases free with same | unreferred
  · exact requestIntact_congr same before
  · intro sequence toWrite produced write
    rw [← before sequence toWrite produced write]
    cases toWrite with
    | bytes bytes => rfl
    | buffer writeBuf length =>
        have elsewhere : (state.clients slot).writeBuf ≠ writeBuf := by
          intro same
          have refers : state.refersTo (state.clients slot).writeBuf = true := by
            apply List.any_eq_true.mpr
            refine ⟨thread, List.mem_finRange thread, ?_⟩
            apply List.any_eq_true.mpr
            refine ⟨operation, member, ?_⟩
            rw [write]
            exact beq_iff_eq.mpr same.symm
          rw [unreferred] at refers
          cases refers
        show (after.writeBufs writeBuf).take length = (state.writeBufs writeBuf).take length
        rw [kept.writeBufs writeBuf]
        intro own connected
        rw [(connectedClient_eq_some connected).1]
        exact elsewhere

variable [DecidableEq K]

theorem RepliesIntact.executeBlock {block : TransactionBlock σ D}
    (intact : RepliesIntact state) (held : state.txThread = .popped block)
    (safe : overwritesReply config state .txExecute = false)
    (executed : executeTransactionBlock config state block = some next) :
    RepliesIntact next := by
  unfold overwritesReply at safe
  rw [held] at safe
  simp only [Bool.and_eq_false_iff] at safe
  cases data : block.data with
  | direct transaction =>
      rcases executeTransactionBlock_direct data executed with ⟨after, response, ran, ended⟩
      have kept := executeTransaction_keepsReplies ran
      have free : after.writeBufs = state.writeBufs ∨
          state.refersTo (state.clients block.client).writeBuf = false := by
        rcases safe with unstored | unreferred
        · unfold storesReply at unstored
          rw [data] at unstored
          simp only [ran, Option.any_some] at unstored
          exact .inl (kept.2.1 unstored)
        · exact .inr unreferred
      rcases ended with rfl | ⟨connected, rfl⟩
      · exact ⟨kept.1.sent intact.sent, kept.1.requests intact free, nofun⟩
      · refine ⟨kept.1.sent intact.sent, kept.1.requests intact free, ?_⟩
        intro slot tag toWrite produced responding
        cases responding
        exact kept.2.2 block.client connected
  | multiple exec transactions =>
      rcases executeTransactionBlock_multiple data executed with
        ⟨after, results, ran, connected, rfl⟩
      have unreferred : state.refersTo (state.clients block.client).writeBuf = false := by
        rcases safe with unstored | unreferred
        · unfold storesReply at unstored
          rw [data] at unstored
          cases unstored
        · exact unreferred
      have kept := (executeTransactions_keepsReplies ran).trans
        (Replies.buffered block.client (blockReply results) connected).keepsReplies
      refine ⟨kept.sent intact.sent, kept.requests intact (.inr unreferred), ?_⟩
      intro slot tag toWrite produced responding
      cases responding
      simp [State.contents, State.store]

variable [NeZero threads]

theorem RepliesIntact.step {action : Action σ D threads} (intact : RepliesIntact state)
    (safe : overwritesReply config state action = false)
    (stepped : step config state action = some next) : RepliesIntact next := by
  cases step_stepped stepped with
  | rejected => exact intact
  | connected slot admitted available => exact intact.congr rfl rfl rfl rfl
  | event slot origin closed =>
      apply intact.addIoRequest
      intro sequence toWrite produced write
      cases closed <;> cases write
  | popped thread operation rest idle queue =>
      apply intact.updateOperations
      rw [IoThread.operations, IoThread.operations, idle, queue]
      exact fun _ member => member
  | dropped thread operation held gone => exact intact.setActivity (by rfl)
  | terminated thread operation id found held occupied type same =>
      have removed : RepliesIntact { state.updateClient found Client.removed with
          clientCount := state.clientCount - 1 } :=
        intact.congr rfl rfl rfl rfl
      exact (removed.setActivity (by rfl)).record (by nofun)
  | reading thread operation id held occupied type => exact intact.setActivity (by rfl)
  | wrote thread operation id sequence toWrite produced held occupied type =>
      have member : operation ∈ (state.ioThreads thread).operations := by
        rw [IoThread.operations, held]
        exact List.mem_cons_self
      exact (intact.setActivity (by rfl)).send
        (intact.requests thread operation member sequence toWrite produced type)
  | locked thread input allocated slot origin id activity occupied =>
      have counted : RepliesIntact (state.countCommand origin) :=
        intact.congr rfl rfl rfl rfl
      exact counted.send rfl
  | unknown thread name allocated slot origin id activity occupied =>
      have counted : RepliesIntact (state.countCommand origin) :=
        intact.congr rfl rfl rfl rfl
      apply counted.addIoRequest
      intro sequence toWrite produced write
      cases write
      rfl
  | limited thread command args slot origin id activity occupied =>
      have counted : RepliesIntact (state.countCommand origin) :=
        intact.congr rfl rfl rfl rfl
      exact (counted.setActivity (by rfl)).send rfl
  | queued thread command args slot origin id block activity occupied waiting managesNone =>
      refine RepliesIntact.setActivity ?_ (by rfl)
      refine RepliesIntact.record ?_ (by nofun)
      exact intact.congr rfl rfl rfl rfl
  | enqueued thread command args slot origin id activity occupied direct room =>
      refine RepliesIntact.setActivity ?_ (by rfl)
      refine RepliesIntact.record ?_ (by nofun)
      exact intact.congr rfl rfl rfl rfl
  | answered thread slot id tag activity occupied waiting =>
      exact (intact.setActivity (by rfl)).send rfl
  | unanswered thread slot id tag waitingTx activity occupied => exact intact.setActivity (by rfl)
  | ended thread slot origin activity => exact intact.setActivity (by rfl)
  | streamEnded thread slot origin activity =>
      apply (intact.setActivity (by rfl)).addIoRequest
      intro sequence toWrite produced write
      cases write
  | blockPopped block rest idle queue =>
      exact intact.change rfl (fun _ _ member => member) (.inr nofun) intact.sent
  | executed block next held ran => exact intact.executeBlock held safe ran
  | responded slot tag toWrite produced responding =>
      have idle : RepliesIntact { state with txThread := .idle } :=
        intact.change rfl (fun _ _ member => member) (.inr nofun) intact.sent
      apply idle.addIoRequest
      intro sequence other bytes write
      cases write
      exact intact.responding slot tag toWrite produced responding

end Steps

/-! ## Every run -/

variable [DecidableEq K] [NeZero threads]

/-- Two commands, the second read and executed after the reply to the first is
sent. -/
def answeredEchoes : List (Action Unit Unit 2) :=
  [.accept, .event 1 1 false, .ioPop 1, .ioPerform 1,
    .readNext 1 (.known (.data echo) [text "a"]) true, .readQueued 1, .readEnd 1 false,
    .txPop, .txExecute, .txRespond, .ioPop 1, .ioPerform 1,
    .event 1 1 false, .ioPop 1, .ioPerform 1,
    .readNext 1 (.known (.data echo) [text "b"]) true, .readQueued 1, .readEnd 1 false,
    .txPop, .txExecute, .txRespond, .ioPop 1, .ioPerform 1]

end TellyDB.Server
