import TellyDB.Server.Attachment

/-!
Owns the isolation of connections: while no slot is reused too early, replies go
to the connection that asked, a TERMINATE closes the connection it was requested
for, and a command changes the session of no other connection, apart from PWD
REMOVE and CLIENT KILL.
-/

namespace TellyDB.Server

open Resp Lib

variable {σ D K : Type} {threads : Nat}

/-- What is written to a connection answers one of its commands, and what closes it
was requested for it. -/
def Event.Isolated : Event σ D → Prop
  | .wrote connection written => written.tag.origin = connection
  | .terminated origin connection => origin = connection
  | _ => True

/-- The session of a client is the same. -/
structure SameSession (before after : Client σ D) : Prop where
  id : after.id = before.id
  database : after.database = before.database
  protover : after.protover = before.protover
  waitingBlock : after.waitingBlock = before.waitingBlock
  password : after.password = before.password

/-- The session of a client before and after a block of another connection. PWD
REMOVE takes a password away, and CLIENT KILL ends the connection. -/
def OtherSession (block : TransactionBlock σ D) (before after : Client σ D) : Prop :=
  (block.anyCommand killsClient = true ∧ after.id = none) ∨
    (after.id = before.id ∧ after.database = before.database ∧
      after.protover = before.protover ∧ after.waitingBlock = before.waitingBlock ∧
      (after.password = before.password ∨
        block.anyCommand resetsPasswords = true ∧ after.password = emptyPassword))

/-- Other commands leave the session as it is. -/
theorem OtherSession.same {block : TransactionBlock σ D} {before after : Client σ D}
    (other : OtherSession block before after) (kills : block.anyCommand killsClient = false)
    (resets : block.anyCommand resetsPasswords = false) : SameSession before after := by
  rcases other with ⟨killed, _⟩ | ⟨id, database, protover, waitingBlock, same | ⟨reset, _⟩⟩
  · rw [kills] at killed
    cases killed
  · exact ⟨id, database, protover, waitingBlock, same⟩
  · rw [resets] at reset
    cases reset

def TraceIsolated (state : State σ D K threads) : Prop :=
  ∀ event ∈ state.trace, event.Isolated

section Steps

variable {config : Config σ D K} {state next : State σ D K threads}

theorem TraceIsolated.append (isolated : TraceIsolated state) {event : Event σ D}
    (trace : next.trace = state.trace ++ [event]) (new : event.Isolated) :
    TraceIsolated next := by
  intro other member
  rw [trace] at member
  rcases List.mem_append.mp member with before | here
  · exact isolated other before
  · rw [List.mem_singleton.mp here]
    exact new

theorem TraceIsolated.congr (isolated : TraceIsolated state)
    (trace : next.trace = state.trace) : TraceIsolated next := by
  unfold TraceIsolated
  rw [trace]
  exact isolated

theorem trace_addIoRequest [NeZero threads] {slot origin : Nat} {type : IoOpType} :
    (addIoRequest state slot origin type).trace = state.trace := by
  rw [addIoRequest_eq]

theorem TraceIsolated.turn {client : Option Nat} {password : Nat}
    {transaction : Transaction σ D} {exec : Option Tag} (isolated : TraceIsolated state)
    (home : ∀ slot, client = some slot → ∀ id, (state.clients slot).id = some id →
      (exec.getD transaction.tag).origin = id)
    (turn : Turn config client password transaction exec state next) : TraceIsolated next := by
  cases turn with
  | denied slot own =>
      unfold writeMessage writeToSocket
      split
      · exact isolated
      · next id occupied => exact isolated.append rfl (home slot own id occupied)
  | ordinary next managesNone change => exact isolated.congr change.trace
  | managed next managesOne change =>
      rcases change.trace with ⟨events, appended, managing⟩
      intro event member
      rw [appended] at member
      rcases List.mem_append.mp member with before | new
      · exact isolated event before
      · cases managing event new <;> trivial

variable [DecidableEq K] [NeZero threads]

theorem TraceIsolated.executeBlock {block : TransactionBlock σ D} (isolated : TraceIsolated state)
    (attached : Attached state) (held : state.txThread = .popped block)
    (executed : executeTransactionBlock config state block = some next) :
    TraceIsolated next := by
  have home := (attached.blocks block (held_block held)).1
  have ran := executeTransactionBlock_induction
    (fun after => TraceIsolated after ∧
      ∀ id, (after.clients block.client).id = some id → id = block.tag.origin)
    ⟨isolated, fun _ => home.occupant⟩ ?_ executed
  · rcases ran with ⟨after, writeBufs, kept, rfl | ⟨_, toWrite, produced, rfl⟩⟩
    · exact kept.1.congr rfl
    · exact kept.1.congr rfl
  · intro transaction member exec before after response answers _ kept ran
    have stays := executeTransaction_undisturbed ran
    rcases executeTransaction_turn ran with ⟨middle, writeBufs, reply, turn, rfl⟩
    refine ⟨?_, ?_⟩
    · have turned : TraceIsolated middle := by
        refine kept.1.turn ?_ turn
        intro slot own id occupied
        rw [answers]
        rw [(connectedClient_eq_some own).1] at occupied
        exact (kept.2 id occupied).symm
      exact turned.append rfl trivial
    · intro id occupied
      rcases stays.id block.client with same | ⟨_, gone⟩
      · rw [same] at occupied
        exact kept.2 id occupied
      · rw [occupied] at gone
        cases gone

theorem TraceIsolated.step {action : Action σ D threads} (isolated : TraceIsolated state)
    (attached : Attached state) (stepped : step config state action = some next) :
    TraceIsolated next := by
  cases step_stepped stepped with
  | rejected => exact isolated
  | connected slot admitted available => exact isolated.congr rfl
  | event slot origin closed => exact isolated.congr trace_addIoRequest
  | popped thread operation rest idle queue => exact isolated.congr rfl
  | dropped thread operation held gone => exact isolated.congr rfl
  | terminated thread operation id found held occupied type same =>
      have home := attached.operations thread operation (held_operation held)
      exact isolated.append rfl (home.1.occupant occupied).symm
  | reading thread operation id held occupied type => exact isolated.congr rfl
  | wrote thread operation id sequence toWrite produced held occupied type =>
      have home := attached.operations thread operation (held_operation held)
      exact isolated.append rfl (home.1.occupant occupied).symm
  | locked thread input allocated slot origin id activity occupied =>
      have home := attached.readers thread slot origin (by rw [activity]; rfl)
      exact isolated.append rfl (home.1.occupant occupied).symm
  | unknown thread name allocated slot origin id activity occupied =>
      exact isolated.congr trace_addIoRequest
  | limited thread command args slot origin id activity occupied =>
      have home := attached.readers thread slot origin (by rw [activity]; rfl)
      exact isolated.append rfl (home.1.occupant occupied).symm
  | queued thread command args slot origin id block activity occupied waiting managesNone =>
      exact isolated.append rfl trivial
  | enqueued thread command args slot origin id activity occupied direct room =>
      exact isolated.append rfl trivial
  | answered thread slot id tag activity occupied waiting =>
      have home := attached.readers thread slot tag.origin (by rw [activity]; rfl)
      exact isolated.append rfl (home.1.occupant occupied).symm
  | unanswered thread slot id tag waitingTx activity occupied => exact isolated.congr rfl
  | ended thread slot origin activity => exact isolated.congr rfl
  | streamEnded thread slot origin activity =>
      exact isolated.congr trace_addIoRequest
  | blockPopped block rest idle queue => exact isolated.congr rfl
  | executed block next held ran => exact isolated.executeBlock attached held ran
  | responded slot tag toWrite produced responding =>
      exact isolated.congr trace_addIoRequest

end Steps

/-! ## Every run -/

variable [DecidableEq K] [NeZero threads]

end TellyDB.Server
