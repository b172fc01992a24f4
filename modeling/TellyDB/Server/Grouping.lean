import TellyDB.Server.SendingOrder
import Mathlib.Data.List.Nodup

/-!
Owns the grouping of commands by MULTI and EXEC: while no command is enqueued before
the MULTI, EXEC or DISCARD ahead of it has taken effect, a block holds what was sent
between its MULTI and its EXEC, in that order, and a discarded block never runs.
-/

namespace TellyDB.Server

open Resp Lib

variable {σ D K : Type} {threads : Nat}

/-! ## The condition -/

def Command.opensBlock : Command σ D → Bool
  | .multi => true
  | _ => false

def Command.endsBlock : Command σ D → Bool
  | .exec | .discard => true
  | _ => false

theorem Command.waitingTx_of_opensBlock {command : Command σ D}
    (opens : command.opensBlock = true) : command.waitingTx = true := by
  cases command with
  | multi => rfl
  | _ => cases opens

/-- A command that manages a block opens one where there is none, or ends one. -/
theorem Moves.opens_or_ends {tag : Tag} {slot password : Nat} {command : Command σ D}
    {boundary : Boundary} {before after : Option (WaitingBlock σ D)}
    {new : List (TransactionBlock σ D)}
    (moves : Moves tag slot password command boundary before after new) :
    (command.opensBlock = true ∧ boundary = .opened ∧ before = none ∧
      after = some ⟨password, []⟩) ∨
    (command.endsBlock = true ∧ boundary ≠ .opened ∧ (∃ waiting, before = some waiting) ∧
      after = none) := by
  cases moves with
  | opened => exact .inl ⟨rfl, rfl, rfl, rfl⟩
  | committed waiting => exact .inr ⟨rfl, nofun, ⟨waiting, rfl⟩, rfl⟩
  | discarded waiting => exact .inr ⟨rfl, nofun, ⟨waiting, rfl⟩, rfl⟩

theorem Moves.waitingTx {tag : Tag} {slot password : Nat} {command : Command σ D}
    {boundary : Boundary} {before after : Option (WaitingBlock σ D)}
    {new : List (TransactionBlock σ D)}
    (moves : Moves tag slot password command boundary before after new) :
    command.waitingTx = true := by
  cases moves <;> rfl

/-- Only EXEC enqueues a block: the one that was waiting. -/
theorem Moves.enqueues {tag : Tag} {slot password : Nat} {command : Command σ D}
    {boundary : Boundary} {before after : Option (WaitingBlock σ D)}
    {new : List (TransactionBlock σ D)}
    (moves : Moves tag slot password command boundary before after new) :
    (boundary ≠ .committed ∧ new = []) ∨ ∃ waiting, boundary = .committed ∧
      command.endsBlock = true ∧ before = some waiting ∧
      new = [⟨slot, waiting.password, .multiple tag waiting.transactions⟩] := by
  cases moves with
  | opened => exact .inl ⟨nofun, rfl⟩
  | committed waiting => exact .inr ⟨waiting, rfl, rfl, rfl, rfl⟩
  | discarded waiting => exact .inl ⟨nofun, rfl⟩

/-- A command of the connection that waits to be executed passes the test. -/
def State.awaits (state : State σ D K threads) (origin : Nat)
    (test : Command σ D → Bool) : Bool :=
  state.directs.any fun transaction => transaction.tag.origin == origin && test transaction.command

/-- The step enqueues a command on its own while a MULTI of its connection waits, or
into a waiting block while an EXEC or DISCARD of its connection waits. -/
def misgroups (state : State σ D K threads) : Action σ D threads → Bool
  | .readNext thread (.known command _) true =>
      match (state.ioThreads thread).activity with
      | .reading slot origin =>
          !(state.clients slot).locked && !command.waitingTx &&
            if (state.clients slot).waitingBlock.isSome then
              state.awaits origin Command.endsBlock
            else state.awaits origin Command.opensBlock
      | _ => false
  | _ => false

/-! ## Blocks by what was sent -/

/-- The block that the MULTI `opener` opened is the one that `closer` is meant for. -/
structure Matching (boundaries : List (Boundary × Tag)) (opener closer : Tag) : Prop where
  opened : (.opened, opener) ∈ boundaries
  origin : closer.origin = opener.origin
  before : opener.sequence < closer.sequence
  between : ∀ boundary ∈ boundaries, boundary.2.origin = opener.origin →
    ¬(opener.sequence < boundary.2.sequence ∧ boundary.2.sequence < closer.sequence)

/-- A command that no block manages, sent by the connection after its command `opener`. -/
def sentAfter (acceptances : List (Transaction σ D)) (opener : Tag) : List (Transaction σ D) :=
  acceptances.filter fun transaction => !transaction.command.waitingTx &&
    decide (transaction.tag.origin = opener.origin ∧
      opener.sequence < transaction.tag.sequence)

/-- Those of them that were sent before `closer`. -/
def sentWithin (acceptances : List (Transaction σ D)) (opener closer : Tag) :
    List (Transaction σ D) :=
  (sentAfter acceptances opener).filter fun transaction =>
    decide (transaction.tag.sequence < closer.sequence)

/-- What was executed as part of the block of `exec`, in that order. -/
def executedUnder (executions : List (Execution σ D)) (exec : Tag) : List (Transaction σ D) :=
  (executions.filter fun execution => execution.block = some exec).map Execution.transaction

section Rules

variable {state next : State σ D K threads} {config : Config σ D K}
  {action : Action σ D threads}

theorem mem_sentAfter {acceptances : List (Transaction σ D)} {opener : Tag}
    {transaction : Transaction σ D} :
    transaction ∈ sentAfter acceptances opener ↔ transaction ∈ acceptances ∧
      transaction.command.waitingTx = false ∧ transaction.tag.origin = opener.origin ∧
      opener.sequence < transaction.tag.sequence := by
  simp [sentAfter, List.mem_filter]

theorem mem_sentWithin {acceptances : List (Transaction σ D)} {opener closer : Tag}
    {transaction : Transaction σ D} :
    transaction ∈ sentWithin acceptances opener closer ↔
      transaction ∈ sentAfter acceptances opener ∧
        transaction.tag.sequence < closer.sequence := by
  simp [sentWithin, List.mem_filter]

/-- Commands that were sent elsewhere, or that manage a block, are not inside. -/
theorem sentAfter_append_of_not {acceptances new : List (Transaction σ D)} {opener : Tag}
    (out : ∀ transaction ∈ new, transaction.command.waitingTx = true ∨
      transaction.tag.origin ≠ opener.origin) :
    sentAfter (acceptances ++ new) opener = sentAfter acceptances opener := by
  have none : sentAfter new opener = [] := by
    apply List.filter_eq_nil_iff.mpr
    intro transaction member
    rcases out transaction member with managesOne | elsewhere
    · simp [managesOne]
    · simp [elsewhere]
  unfold sentAfter at none ⊢
  rw [List.filter_append, none, List.append_nil]

theorem sentAfter_append {acceptances : List (Transaction σ D)} {opener : Tag}
    {transaction : Transaction σ D} (managesNone : transaction.command.waitingTx = false)
    (origin : transaction.tag.origin = opener.origin)
    (after : opener.sequence < transaction.tag.sequence) :
    sentAfter (acceptances ++ [transaction]) opener =
      sentAfter acceptances opener ++ [transaction] := by
  unfold sentAfter
  rw [List.filter_append]
  simp [managesNone, origin, after]

/-- A command that was sent after `closer` is not within. -/
theorem sentWithin_append {acceptances : List (Transaction σ D)} {opener closer : Tag}
    {transaction : Transaction σ D} (same : closer.origin = opener.origin)
    (later : closer.Before transaction.tag) :
    sentWithin (acceptances ++ [transaction]) opener closer =
      sentWithin acceptances opener closer := by
  by_cases origin : transaction.tag.origin = opener.origin
  · have after := later (same.trans origin.symm)
    unfold sentWithin sentAfter
    rw [List.filter_append, List.filter_append]
    have out : ((List.filter (fun other : Transaction σ D => !other.command.waitingTx &&
        decide (other.tag.origin = opener.origin ∧ opener.sequence < other.tag.sequence))
        [transaction]).filter fun other =>
          decide (other.tag.sequence < closer.sequence)) = [] := by
      apply List.filter_eq_nil_iff.mpr
      intro other member
      rw [List.mem_singleton.mp (List.mem_of_mem_filter member), decide_eq_true_eq]
      omega
    rw [out, List.append_nil]
  · unfold sentWithin
    rw [sentAfter_append_of_not]
    intro other member
    rw [List.mem_singleton.mp member]
    exact .inr origin

/-- What MULTI, EXEC and DISCARD did, they did in sending order, before whatever waits
to be executed. -/
structure Bounded (state : State σ D K threads) : Prop where
  sorted : state.boundaries.Pairwise fun first second => first.2.Before second.2
  ahead : ∀ boundary ∈ state.boundaries, ∀ transaction ∈ state.directs,
    boundary.2.Before transaction.tag
  sent : ∀ boundary ∈ state.boundaries, boundary.2.sequence < state.sent boundary.2.origin
  known : ∀ boundary ∈ state.boundaries, boundary.2.origin < state.lastConnectionClientId

theorem Bounded.keep (bounded : Bounded state) (boundaries : next.boundaries = state.boundaries)
    (directs : ∀ transaction ∈ next.directs, transaction ∈ state.directs ∨
      transaction.tag.sequence = state.sent transaction.tag.origin)
    (sent : ∀ origin, state.sent origin ≤ next.sent origin)
    (last : state.lastConnectionClientId ≤ next.lastConnectionClientId) : Bounded next where
  sorted := by
    rw [boundaries]
    exact bounded.sorted
  ahead := by
    intro boundary member transaction waits
    rw [boundaries] at member
    rcases directs transaction waits with before | new
    · exact bounded.ahead boundary member transaction before
    · intro same
      rw [new, ← same]
      exact bounded.sent boundary member
  sent := by
    intro boundary member
    rw [boundaries] at member
    exact Nat.lt_of_lt_of_le (bounded.sent boundary member) (sent _)
  known := by
    intro boundary member
    rw [boundaries] at member
    exact Nat.lt_of_lt_of_le (bounded.known boundary member) last

/-- A block's boundary is later than all before it, and earlier than what waits. -/
theorem BlockRun.boundary_last {block : TransactionBlock σ D} {transaction : Transaction σ D}
    (ran : BlockRun block state next) (held : state.txThread = .popped block)
    (data : block.data = .direct transaction) (numbered : Numbered state)
    (bounded : Bounded state) :
    (∀ boundary ∈ state.boundaries, boundary.2.Before transaction.tag) ∧
      ∀ other ∈ next.directs, transaction.tag.Before other.tag := by
  have leads := ran.leads held data
  refine ⟨?_, ?_⟩
  · intro boundary member
    apply bounded.ahead boundary member
    rw [leads]
    exact List.mem_cons_self
  · have sorted := numbered.directs
    rw [leads, List.pairwise_cons] at sorted
    exact sorted.1

theorem Bounded.run (bounded : Bounded state) (numbered : Numbered state)
    {block : TransactionBlock σ D} (held : state.txThread = .popped block)
    (known : block.tag.origin < state.lastConnectionClientId) (ran : BlockRun block state next) :
    Bounded next := by
  have fewer := ran.subset held
  have lastOf := fun transaction (data : block.data = .direct transaction) =>
    ran.boundary_last held data numbered bounded
  have leads := fun transaction (data : block.data = .direct transaction) =>
    ran.leads held data
  cases ran with
  | direct transaction reply data quiet pending executions =>
      exact bounded.keep quiet.boundaries (fun _ member => .inl (fewer.subset member)) quiet.sent
        (by rw [quiet.lastConnectionClientId])
  | multiple exec transactions new data quiet pending executions same under =>
      exact bounded.keep quiet.boundaries (fun _ member => .inl (fewer.subset member)) quiet.sent
        (by rw [quiet.lastConnectionClientId])
  | managed transaction reply boundary before after new data connected moves waiting clients last
      sent pending acceptances boundaries executions =>
      rcases lastOf transaction data with ⟨earlier, later⟩
      have tag : block.tag = transaction.tag := by rw [TransactionBlock.tag, data]
      refine ⟨?_, ?_, ?_, ?_⟩
      · rw [boundaries, List.pairwise_append]
        refine ⟨bounded.sorted, List.pairwise_singleton _ _, ?_⟩
        intro other member here new
        rw [List.mem_singleton.mp new]
        exact earlier other member
      · intro other member waits memberWaits
        rw [boundaries] at member
        rcases List.mem_append.mp member with old | new
        · exact bounded.ahead other old waits (fewer.subset memberWaits)
        · rw [List.mem_singleton.mp new]
          exact later waits memberWaits
      · intro other member
        rw [boundaries] at member
        rw [sent]
        rcases List.mem_append.mp member with old | new
        · exact bounded.sent other old
        · rw [List.mem_singleton.mp new]
          apply numbered.accepted transaction
          apply numbered.pending transaction
          rw [leads transaction data]
          exact List.mem_cons_self
      · intro other member
        rw [boundaries] at member
        rw [last]
        rcases List.mem_append.mp member with old | new
        · exact bounded.known other old
        · rw [List.mem_singleton.mp new, ← tag]
          exact known

/-! ## The waiting block of a client -/

/-- What the waiting block of a connected client has to do with what it sent. -/
structure WaitingAt (state : State σ D K threads) (slot origin : Nat) : Prop where
  closed : (state.clients slot).waitingBlock = none → ∀ opener,
    (.opened, opener) ∈ state.boundaries → opener.origin = origin →
    ∃ closer ∈ state.boundaries, closer.1 ≠ .opened ∧ closer.2.origin = origin ∧
      opener.sequence < closer.2.sequence
  opened : ∀ waiting, (state.clients slot).waitingBlock = some waiting → ∃ opener,
    (.opened, opener) ∈ state.boundaries ∧ opener.origin = origin ∧
    (∀ boundary ∈ state.boundaries, boundary.2.origin = origin →
      boundary.2.sequence ≤ opener.sequence) ∧
    waiting.transactions.map Subtype.val = sentAfter state.acceptances opener
  ends : ∀ waiting, (state.clients slot).waitingBlock = some waiting →
    ∀ transaction ∈ state.directs, transaction.tag.origin = origin →
    transaction.command.endsBlock = true → ∀ member ∈ waiting.transactions,
    member.val.tag.sequence < transaction.tag.sequence
  /-- What was sent after a MULTI that waits is in a block that no command ends before
  that MULTI. -/
  opens : ∀ transaction ∈ state.directs, transaction.tag.origin = origin →
    transaction.command.opensBlock = true → ∀ later ∈ state.acceptances,
    later.command.waitingTx = false → later.tag.origin = origin →
    transaction.tag.sequence < later.tag.sequence →
    (state.clients slot).waitingBlock ≠ none ∧ ∀ other ∈ state.directs,
      other.tag.origin = origin → other.command.endsBlock = true →
      transaction.tag.sequence < other.tag.sequence
  plain : ∀ transaction ∈ state.directs, transaction.tag.origin = origin →
    transaction.command.waitingTx = false → (state.clients slot).waitingBlock = none

/-- Nothing new of this connection. -/
theorem WaitingAt.keep {slot origin : Nat} (waitingAt : WaitingAt state slot origin)
    {moved : List (Boundary × Tag)} {new : List (Transaction σ D)}
    (waits : (next.clients slot).waitingBlock = (state.clients slot).waitingBlock)
    (boundaries : next.boundaries = state.boundaries ++ moved)
    (movedElsewhere : ∀ boundary ∈ moved, boundary.2.origin ≠ origin)
    (directs : ∀ transaction ∈ next.directs, transaction.tag.origin = origin →
      transaction ∈ state.directs)
    (acceptances : next.acceptances = state.acceptances ++ new)
    (newElsewhere : ∀ transaction ∈ new, transaction.tag.origin ≠ origin) :
    WaitingAt next slot origin := by
  have before : ∀ boundary ∈ next.boundaries, boundary.2.origin = origin →
      boundary ∈ state.boundaries := by
    intro boundary member same
    rw [boundaries] at member
    rcases List.mem_append.mp member with old | here
    · exact old
    · exact absurd same (movedElsewhere boundary here)
  refine ⟨?_, ?_, ?_, ?_, ?_⟩
  · intro none opener member same
    rw [waits] at none
    rcases waitingAt.closed none opener (before _ member same) same with ⟨closer, closes, rest⟩
    refine ⟨closer, ?_, rest⟩
    rw [boundaries]
    exact List.mem_append_left _ closes
  · intro waiting some
    rw [waits] at some
    rcases waitingAt.opened waiting some with ⟨opener, opens, same, last, members⟩
    refine ⟨opener, ?_, same, ?_, ?_⟩
    · rw [boundaries]
      exact List.mem_append_left _ opens
    · intro boundary member here
      exact last boundary (before boundary member here) here
    · rw [members, acceptances, sentAfter_append_of_not]
      intro transaction here
      rw [same]
      exact .inr (newElsewhere transaction here)
  · intro waiting some transaction member same
    rw [waits] at some
    exact waitingAt.ends waiting some transaction (directs transaction member same) same
  · intro transaction member same opens later accepted managesNone here after
    rw [acceptances] at accepted
    rcases List.mem_append.mp accepted with old | fresh
    · rcases waitingAt.opens transaction (directs transaction member same) same opens later old
        managesNone here after with ⟨held, ends⟩
      rw [waits]
      exact ⟨held, fun other waitsOther own => ends other (directs other waitsOther own) own⟩
    · exact absurd here (newElsewhere later fresh)
  · intro transaction member same managesNone
    rw [waits]
    exact waitingAt.plain transaction (directs transaction member same) same managesNone

/-- A command joins the waiting block while no EXEC and no DISCARD waits. -/
theorem WaitingAt.queue {slot origin : Nat} (waitingAt : WaitingAt state slot origin)
    (bounded : Bounded state) {waiting : WaitingBlock σ D}
    {transaction : QueuedTransaction σ D}
    (held : (state.clients slot).waitingBlock = some waiting)
    (tag : transaction.val.tag = ⟨origin, state.sent origin⟩)
    (noneEnds : state.awaits origin Command.endsBlock = false)
    (waits : (next.clients slot).waitingBlock =
      some { waiting with transactions := waiting.transactions ++ [transaction] })
    (boundaries : next.boundaries = state.boundaries) (directs : next.directs = state.directs)
    (acceptances : next.acceptances = state.acceptances ++ [transaction.val]) :
    WaitingAt next slot origin := by
  have noEnd : ∀ other ∈ state.directs, other.tag.origin = origin →
      other.command.endsBlock = true → False := by
    intro other member same ends
    have none := List.any_eq_false.mp noneEnds other member
    simp [same, ends] at none
  refine ⟨?_, ?_, ?_, ?_, ?_⟩
  · intro none
    rw [waits] at none
    cases none
  · intro found some
    rw [waits] at some
    cases some
    rcases waitingAt.opened waiting held with ⟨opener, opens, same, last, members⟩
    refine ⟨opener, ?_, same, ?_, ?_⟩
    · rw [boundaries]
      exact opens
    · rw [boundaries]
      exact last
    · have sent := bounded.sent _ opens
      rw [List.map_append, members, acceptances, sentAfter_append transaction.property]
      · rfl
      · rw [tag, same]
      · rw [tag, ← same]
        exact sent
  · intro found _ other member same ends
    rw [directs] at member
    exact (noEnd other member same ends).elim
  · intro other member same opens later _ _ _ _
    rw [waits]
    refine ⟨nofun, ?_⟩
    intro third memberThird sameThird ends
    rw [directs] at memberThird
    exact (noEnd third memberThird sameThird ends).elim
  · intro other member same managesNone
    rw [directs] at member
    have none := waitingAt.plain other member same managesNone
    rw [held] at none
    cases none

/-- A command is enqueued on its own: it manages a block, or the client has none and no
MULTI waits. -/
theorem WaitingAt.enqueue {slot origin : Nat} (waitingAt : WaitingAt state slot origin)
    (numbered : Numbered state) {transaction : Transaction σ D}
    (tag : transaction.tag = ⟨origin, state.sent origin⟩)
    (direct : (state.clients slot).waitingBlock = none ∨ transaction.command.waitingTx = true)
    (noneOpens : (state.clients slot).waitingBlock = none →
      transaction.command.waitingTx = false →
      state.awaits origin Command.opensBlock = false)
    (clients : next.clients = state.clients)
    (boundaries : next.boundaries = state.boundaries)
    (directs : next.directs = state.directs ++ [transaction])
    (acceptances : next.acceptances = state.acceptances ++ [transaction]) :
    WaitingAt next slot origin := by
  have number : ∀ other ∈ state.acceptances, other.tag.origin = origin →
      other.tag.sequence < transaction.tag.sequence := by
    intro other member same
    have sent := numbered.accepted other member
    rw [same] at sent
    rw [tag]
    exact sent
  refine ⟨?_, ?_, ?_, ?_, ?_⟩
  · rw [clients, boundaries]
    exact waitingAt.closed
  · intro waiting held
    rw [clients] at held
    rcases waitingAt.opened waiting held with ⟨opener, opens, same, last, members⟩
    refine ⟨opener, ?_, same, ?_, ?_⟩
    · rw [boundaries]
      exact opens
    · rw [boundaries]
      exact last
    · rw [members, acceptances, sentAfter_append_of_not]
      intro other new
      rw [List.mem_singleton.mp new]
      rcases direct with none | managesOne
      · rw [held] at none
        cases none
      · exact .inl managesOne
  · intro waiting held other member same ends queued queuedMember
    rw [clients] at held
    rw [directs] at member
    rcases List.mem_append.mp member with old | new
    · exact waitingAt.ends waiting held other old same ends queued queuedMember
    · rcases waitingAt.opened waiting held with ⟨opener, _, own, _, members⟩
      have inside : queued.val ∈ sentAfter state.acceptances opener := by
        rw [← members]
        exact List.mem_map_of_mem queuedMember
      rcases mem_sentAfter.mp inside with ⟨accepted, _, here, _⟩
      rw [List.mem_singleton.mp new]
      exact number queued.val accepted (here.trans own)
  · intro other member same opens later accepted managesNone here after
    rw [directs] at member ⊢
    rw [acceptances] at accepted
    rw [clients]
    have ending : ∀ third ∈ state.directs ++ [transaction], third.tag.origin = origin →
        (third ∈ state.directs → other.tag.sequence < third.tag.sequence) →
        other ∈ state.directs → other.tag.sequence < third.tag.sequence := by
      intro third memberThird sameThird before otherWaits
      rcases List.mem_append.mp memberThird with old | new
      · exact before old
      · rw [List.mem_singleton.mp new]
        exact number other (numbered.pending other otherWaits) same
    rcases List.mem_append.mp member with old | new
    · rcases List.mem_append.mp accepted with oldLater | newLater
      · rcases waitingAt.opens other old same opens later oldLater managesNone here after with
          ⟨held, ends⟩
        refine ⟨held, fun third memberThird sameThird kind => ?_⟩
        exact ending third memberThird sameThird (fun waits => ends third waits sameThird kind) old
      · rw [List.mem_singleton.mp newLater] at managesNone
        rcases direct with none | managesOne
        · have noOpen := List.any_eq_false.mp (noneOpens none managesNone) other old
          simp [same, opens] at noOpen
        · rw [managesNone] at managesOne
          cases managesOne
    · rw [List.mem_singleton.mp new] at opens after
      rcases List.mem_append.mp accepted with oldLater | newLater
      · have less := number later oldLater here
        omega
      · rw [List.mem_singleton.mp newLater] at managesNone
        rw [Command.waitingTx_of_opensBlock opens] at managesNone
        cases managesNone
  · intro other member same managesNone
    rw [directs] at member
    rw [clients]
    rcases List.mem_append.mp member with old | new
    · exact waitingAt.plain other old same managesNone
    · rw [List.mem_singleton.mp new] at managesNone
      rcases direct with none | managesOne
      · exact none
      · rw [managesNone] at managesOne
        cases managesOne

/-- MULTI, EXEC or DISCARD moves the waiting block of its client. -/
theorem WaitingAt.move {slot : Nat} {transaction : Transaction σ D} {password : Nat}
    {boundary : Boundary} {before after : Option (WaitingBlock σ D)}
    {new : List (TransactionBlock σ D)}
    (waitingAt : WaitingAt state slot transaction.tag.origin) (numbered : Numbered state)
    (bounded : Bounded state)
    (moves : Moves transaction.tag slot password transaction.command boundary before after new)
    (held : (state.clients slot).waitingBlock = before)
    (leads : state.directs = transaction :: next.directs)
    (waits : (next.clients slot).waitingBlock = after)
    (boundaries : next.boundaries = state.boundaries ++ [(boundary, transaction.tag)])
    (acceptances : next.acceptances = state.acceptances) :
    WaitingAt next slot transaction.tag.origin := by
  have head : transaction ∈ state.directs := by
    rw [leads]
    exact List.mem_cons_self
  have sorted := numbered.directs
  rw [leads, List.pairwise_cons] at sorted
  have behind : ∀ other ∈ next.directs, other ∈ state.directs := by
    intro other member
    rw [leads]
    exact List.mem_cons_of_mem _ member
  have earlier : ∀ other ∈ state.boundaries, other.2.origin = transaction.tag.origin →
      other.2.sequence < transaction.tag.sequence :=
    fun other member => bounded.ahead other member transaction head
  rcases moves.opens_or_ends with ⟨opens, opened, none, some⟩ | ⟨ends, closes, ⟨_, some⟩, none⟩
  · -- A command sent after this MULTI would be in the block of an older one.
    have alone : ∀ later ∈ state.acceptances, later.command.waitingTx = false →
        later.tag.origin = transaction.tag.origin →
        ¬transaction.tag.sequence < later.tag.sequence := by
      intro later accepted managesNone here after
      exact (waitingAt.opens transaction head rfl opens later accepted managesNone here after).1
        (held.trans none)
    refine ⟨?_, ?_, ?_, ?_, ?_⟩
    · intro empty
      rw [waits, some] at empty
      cases empty
    · intro waiting found
      rw [waits, some] at found
      cases found
      refine ⟨transaction.tag, ?_, rfl, ?_, ?_⟩
      · rw [boundaries, opened]
        exact List.mem_append_right _ List.mem_cons_self
      · intro other member same
        rw [boundaries] at member
        rcases List.mem_append.mp member with old | new
        · exact Nat.le_of_lt (earlier other old same)
        · rw [List.mem_singleton.mp new]
      · symm
        apply List.eq_nil_iff_forall_not_mem.mpr
        intro later inside
        rw [acceptances] at inside
        rcases mem_sentAfter.mp inside with ⟨accepted, managesNone, here, after⟩
        exact alone later accepted managesNone here after
    · intro waiting found other member same kind queued queuedMember
      rw [waits, some] at found
      cases found
      cases queuedMember
    · intro other member same otherOpens later accepted managesNone here after
      rw [acceptances] at accepted
      have less := sorted.1 other member same.symm
      exact (alone later accepted managesNone here (Nat.lt_trans less after)).elim
    · intro other member same managesNone
      have less := sorted.1 other member same.symm
      exact (alone other (numbered.pending other (behind other member)) managesNone same
        less).elim
  · refine ⟨?_, ?_, ?_, ?_, ?_⟩
    · intro _ opener member same
      refine ⟨(boundary, transaction.tag), ?_, closes, rfl, ?_⟩
      · rw [boundaries]
        exact List.mem_append_right _ List.mem_cons_self
      · rw [boundaries] at member
        rcases List.mem_append.mp member with old | new
        · exact earlier _ old same
        · cases List.mem_singleton.mp new
          exact (closes rfl).elim
    · intro waiting found
      rw [waits, none] at found
      cases found
    · intro waiting found
      rw [waits, none] at found
      cases found
    · intro other member same otherOpens later accepted managesNone here after
      rw [acceptances] at accepted
      have less := sorted.1 other member same.symm
      have more := (waitingAt.opens other (behind other member) same otherOpens later accepted
        managesNone here after).2 transaction head rfl ends
      omega
    · intro other member same managesNone
      rw [waits]
      exact none

end Rules

/-! ## What was executed -/

section Records

variable {departed left : Nat → Prop} {boundaries : List (Boundary × Tag)}
  {acceptances : List (Transaction σ D)} {executions : List (Execution σ D)}
  {multiples : List (Tag × List (QueuedTransaction σ D))}

/-- Every block that was open when the command was sent had ended before it, or the
connection is gone and no boundary of it is later. -/
def OutsideBlocks (departed : Nat → Prop) (boundaries : List (Boundary × Tag))
    (execution : Execution σ D) : Prop :=
  (∀ opener, (.opened, opener) ∈ boundaries →
    opener.origin = execution.transaction.tag.origin →
    opener.sequence < execution.transaction.tag.sequence →
    ∃ boundary ∈ boundaries, boundary.1 ≠ .opened ∧ boundary.2.origin = opener.origin ∧
      opener.sequence < boundary.2.sequence ∧
      boundary.2.sequence < execution.transaction.tag.sequence) ∨
  (execution.connected = false ∧ departed execution.transaction.tag.origin ∧
    ∀ boundary ∈ boundaries, boundary.2.Before execution.transaction.tag)

/-- What was executed on its own and in blocks, and what waits in blocks. -/
structure Recorded (departed : Nat → Prop) (boundaries : List (Boundary × Tag))
    (acceptances : List (Transaction σ D)) (executions : List (Execution σ D))
    (multiples : List (Tag × List (QueuedTransaction σ D))) : Prop where
  waiting : ∀ block ∈ multiples, (.committed, block.1) ∈ boundaries ∧
    executedUnder executions block.1 = [] ∧ ∃ opener, Matching boundaries opener block.1 ∧
      block.2.map Subtype.val = sentWithin acceptances opener block.1
  distinct : (multiples.map Prod.fst).Nodup
  committed : ∀ exec, (.committed, exec) ∈ boundaries →
    (∃ block ∈ multiples, block.1 = exec) ∨ ∃ opener, Matching boundaries opener exec ∧
      executedUnder executions exec = sentWithin acceptances opener exec
  under : ∀ execution ∈ executions, ∀ exec, execution.block = some exec →
    (.committed, exec) ∈ boundaries
  outside : ∀ execution ∈ executions, execution.block = none →
    execution.transaction.command.waitingTx = false →
    OutsideBlocks departed boundaries execution

theorem Matching.append {opener closer : Tag} {moved : Boundary × Tag}
    (matching : Matching boundaries opener closer)
    (later : closer.origin = moved.2.origin → closer.sequence ≤ moved.2.sequence) :
    Matching (boundaries ++ [moved]) opener closer where
  opened := List.mem_append_left _ matching.opened
  origin := matching.origin
  before := matching.before
  between := by
    intro boundary member same
    rcases List.mem_append.mp member with old | new
    · exact matching.between boundary old same
    · rw [List.mem_singleton.mp new] at same ⊢
      have after := later (matching.origin.trans same.symm)
      omega

theorem Recorded.depart
    (recorded : Recorded departed boundaries acceptances executions multiples)
    (gone : ∀ origin, departed origin → left origin) :
    Recorded left boundaries acceptances executions multiples where
  waiting := recorded.waiting
  distinct := recorded.distinct
  committed := recorded.committed
  under := recorded.under
  outside := by
    intro execution member direct managesNone
    rcases recorded.outside execution member direct managesNone with ended | ⟨off, away, last⟩
    · exact .inl ended
    · exact .inr ⟨off, gone _ away, last⟩

/-- A command is enqueued. -/
theorem Recorded.accept {transaction : Transaction σ D}
    (recorded : Recorded departed boundaries acceptances executions multiples)
    (later : ∀ boundary ∈ boundaries, boundary.2.Before transaction.tag) :
    Recorded departed boundaries (acceptances ++ [transaction]) executions multiples where
  waiting := by
    intro block member
    rcases recorded.waiting block member with ⟨committed, none, opener, matching, members⟩
    refine ⟨committed, none, opener, matching, ?_⟩
    rw [members, sentWithin_append matching.origin (later _ committed)]
  distinct := recorded.distinct
  committed := by
    intro exec committed
    refine (recorded.committed exec committed).imp_right ?_
    rintro ⟨opener, matching, members⟩
    refine ⟨opener, matching, ?_⟩
    rw [members, sentWithin_append matching.origin (later _ committed)]
  under := recorded.under
  outside := recorded.outside

theorem executedUnder_append (executions new : List (Execution σ D)) (exec : Tag) :
    executedUnder (executions ++ new) exec =
      executedUnder executions exec ++ executedUnder new exec := by
  rw [executedUnder, List.filter_append, List.map_append]
  rfl

/-- A command is executed on its own. -/
theorem Recorded.execute (execution : Execution σ D)
    (recorded : Recorded departed boundaries acceptances executions multiples)
    (direct : execution.block = none)
    (outside : execution.transaction.command.waitingTx = false →
      OutsideBlocks departed boundaries execution) :
    Recorded departed boundaries acceptances (executions ++ [execution]) multiples := by
  have same : ∀ exec, executedUnder (executions ++ [execution]) exec =
      executedUnder executions exec := by
    intro exec
    have none : executedUnder [execution] exec = [] := by simp [executedUnder, direct]
    rw [executedUnder_append, none, List.append_nil]
  refine ⟨?_, recorded.distinct, ?_, ?_, ?_⟩
  · intro block member
    rw [same]
    exact recorded.waiting block member
  · intro exec committed
    rw [same]
    exact recorded.committed exec committed
  · intro other member exec under
    rcases List.mem_append.mp member with old | new
    · exact recorded.under other old exec under
    · rw [List.mem_singleton.mp new, direct] at under
      cases under
  · intro other member alone managesNone
    rcases List.mem_append.mp member with old | new
    · exact recorded.outside other old alone managesNone
    · rw [List.mem_singleton.mp new] at managesNone ⊢
      exact outside managesNone

/-- MULTI, EXEC or DISCARD moves a block, which EXEC enqueues. -/
theorem Recorded.bound {kind : Boundary} {tag : Tag}
    {added : List (Tag × List (QueuedTransaction σ D))}
    (recorded : Recorded departed boundaries acceptances executions multiples)
    (later : ∀ boundary ∈ boundaries, boundary.2.Before tag)
    (direct : ∀ execution ∈ executions, execution.block = none →
      execution.transaction.tag.Before tag)
    (alive : ¬departed tag.origin)
    (enqueued : kind ≠ .committed ∧ added = [] ∨ ∃ transactions opener,
      kind = .committed ∧ added = [(tag, transactions)] ∧ Matching boundaries opener tag ∧
      transactions.map Subtype.val = sentWithin acceptances opener tag) :
    Recorded departed (boundaries ++ [(kind, tag)]) acceptances executions
      (multiples ++ added) := by
  have unused : (.committed, tag) ∉ boundaries := by
    intro member
    exact absurd (later _ member rfl) (Nat.lt_irrefl _)
  have fresh : executedUnder executions tag = [] := by
    rw [executedUnder, List.map_eq_nil_iff, List.filter_eq_nil_iff]
    intro execution member here
    exact unused (recorded.under execution member tag (of_decide_eq_true here))
  refine ⟨?_, ?_, ?_, ?_, ?_⟩
  · intro block member
    rcases List.mem_append.mp member with old | new
    · rcases recorded.waiting block old with ⟨committed, none, opener, matching, members⟩
      exact ⟨List.mem_append_left _ committed, none, opener,
        matching.append fun same => Nat.le_of_lt (later _ committed same), members⟩
    · rcases enqueued with ⟨_, none⟩ | ⟨transactions, opener, kindIs, one, matching, members⟩
      · rw [none] at new
        cases new
      · rw [one] at new
        rw [List.mem_singleton.mp new, kindIs]
        exact ⟨List.mem_append_right _ List.mem_cons_self, fresh, opener,
          matching.append fun _ => Nat.le_refl _, members⟩
  · rw [List.map_append]
    rcases enqueued with ⟨_, none⟩ | ⟨transactions, opener, kindIs, one, matching, members⟩
    · rw [none, List.map_nil, List.append_nil]
      exact recorded.distinct
    · rw [one]
      refine List.nodup_append.mpr ⟨recorded.distinct, List.pairwise_singleton _ _, ?_⟩
      intro exec member other new same
      rw [List.map_cons, List.map_nil, List.mem_singleton] at new
      rw [new] at same
      rcases List.mem_map.mp member with ⟨block, waits, is⟩
      apply unused
      have here : exec = tag := same
      rw [← here, ← is]
      exact (recorded.waiting block waits).1
  · intro exec member
    rcases List.mem_append.mp member with old | new
    · rcases recorded.committed exec old with ⟨block, waits, same⟩ | ⟨opener, matching, members⟩
      · exact .inl ⟨block, List.mem_append_left _ waits, same⟩
      · exact .inr ⟨opener, matching.append fun same => Nat.le_of_lt (later _ old same), members⟩
    · cases List.mem_singleton.mp new
      rcases enqueued with ⟨other, _⟩ | ⟨transactions, opener, _, one, _⟩
      · exact absurd rfl other
      · refine .inl ⟨(tag, transactions), ?_, rfl⟩
        rw [one]
        exact List.mem_append_right _ List.mem_cons_self
  · intro execution member exec under
    exact List.mem_append_left _ (recorded.under execution member exec under)
  · intro execution member alone managesNone
    rcases recorded.outside execution member alone managesNone with ended | ⟨off, away, last⟩
    · refine .inl fun opener opens same before => ?_
      rcases List.mem_append.mp opens with old | new
      · rcases ended opener old same before with ⟨closer, closes, rest⟩
        exact ⟨closer, List.mem_append_left _ closes, rest⟩
      · cases List.mem_singleton.mp new
        have less := direct execution member alone same.symm
        omega
    · refine .inr ⟨off, away, ?_⟩
      intro boundary known
      rcases List.mem_append.mp known with old | new
      · exact last boundary old
      · rw [List.mem_singleton.mp new]
        intro same
        rw [← same] at away
        exact absurd away alive

/-- A block is executed. -/
theorem Recorded.executeBlock {exec : Tag} {transactions : List (QueuedTransaction σ D)}
    {new : List (Execution σ D)}
    (recorded : Recorded departed boundaries acceptances executions
      ((exec, transactions) :: multiples))
    (same : new.map Execution.transaction = transactions.map Subtype.val)
    (under : ∀ execution ∈ new, execution.block = some exec) :
    Recorded departed boundaries acceptances (executions ++ new) multiples := by
  have others : ∀ other, other ≠ exec → executedUnder (executions ++ new) other =
      executedUnder executions other := by
    intro other different
    have none : executedUnder new other = [] := by
      rw [executedUnder, List.map_eq_nil_iff, List.filter_eq_nil_iff]
      intro execution member here
      rw [under execution member, decide_eq_true_eq, Option.some.injEq] at here
      exact different here.symm
    rw [executedUnder_append, none, List.append_nil]
  have all : executedUnder new exec = transactions.map Subtype.val := by
    have every : new.filter (fun execution => execution.block = some exec) = new := by
      apply List.filter_eq_self.mpr
      intro execution member
      exact decide_eq_true (under execution member)
    rw [executedUnder, every, same]
  have distinct := recorded.distinct
  rw [List.map_cons, List.nodup_cons] at distinct
  rcases recorded.waiting _ List.mem_cons_self with ⟨committed, none, opener, matching, members⟩
  refine ⟨?_, distinct.2, ?_, ?_, ?_⟩
  · intro block member
    have different : block.1 ≠ exec := by
      intro here
      apply distinct.1
      rw [← here]
      exact List.mem_map.mpr ⟨block, member, rfl⟩
    rw [others _ different]
    exact recorded.waiting block (List.mem_cons_of_mem _ member)
  · intro other known
    by_cases here : other = exec
    · refine .inr ⟨opener, here ▸ matching, ?_⟩
      rw [here, executedUnder_append, all, ← members]
      simp only at none
      rw [none, List.nil_append]
    · rw [others other here]
      refine (recorded.committed other known).imp_left ?_
      rintro ⟨block, member, is⟩
      rcases List.mem_cons.mp member with rfl | rest
      · exact absurd is.symm here
      · exact ⟨block, rest, is⟩
  · intro execution member other within
    rcases List.mem_append.mp member with old | fresh
    · exact recorded.under execution old other within
    · rw [under execution fresh, Option.some.injEq] at within
      rw [← within]
      exact committed
  · intro execution member alone
    rcases List.mem_append.mp member with old | fresh
    · exact recorded.outside execution old alone
    · rw [under execution fresh] at alone
      cases alone

end Records

section Steps

variable {state next : State σ D K threads} {config : Config σ D K}
  {action : Action σ D threads}

variable [NeZero threads]

theorem Bounded.advance (bounded : Bounded state) (attached : Attached state)
    (numbered : Numbered state) (advance : Advance config state action next) : Bounded next := by
  cases advance with
  | quiet _ _ quiet pending executions =>
      refine bounded.keep quiet.boundaries ?_ quiet.sent (by rw [quiet.lastConnectionClientId])
      intro transaction member
      rw [State.directs, pending] at member
      exact .inl member
  | connected slot admitted available =>
      exact bounded.keep rfl (fun _ member => .inl member) (fun _ => Nat.le_refl _) (Nat.le_succ _)
  | queued thread command args slot origin waiting transaction _ activity occupied unlocked waits
      made clients last sent pending acceptances boundaries executions =>
      refine bounded.keep boundaries ?_ ?_ (by rw [last])
      · intro transaction member
        rw [State.directs, pending] at member
        exact .inl member
      · rw [sent]
        exact sent_le_countCommand origin
  | enqueued thread command args slot origin transaction _ activity occupied unlocked direct made
      clients last sent pending acceptances boundaries executions =>
      refine bounded.keep boundaries ?_ ?_ (by rw [last])
      · intro other member
        rw [State.directs, pending, List.filterMap_append] at member
        refine (List.mem_append.mp member).imp_right fun new => ?_
        rw [List.mem_singleton.mp new, made]
        rfl
      · rw [sent]
        exact sent_le_countCommand origin
  | ran block _ held run =>
      exact bounded.run numbered held (attached.blocks block (held_block held)).1.1 run

/-- What the waiting blocks of all connected clients have to do with what they sent. -/
def Waiting (state : State σ D K threads) : Prop :=
  ∀ slot origin, (state.clients slot).id = some origin → WaitingAt state slot origin

omit [NeZero threads] in
/-- The block of a departed client does not matter, and a block leaves the others alone. -/
theorem Waiting.quiet (waiting : Waiting state) (quiet : Quiet state next)
    (directs : ∀ transaction ∈ next.directs, transaction ∈ state.directs) : Waiting next := by
  intro slot origin occupied
  rcases quiet.stays occupied with ⟨before, waits⟩
  exact (waiting slot origin before).keep waits
    (quiet.boundaries.trans (List.append_nil _).symm) (List.forall_mem_nil _)
    (fun transaction member _ => directs transaction member)
    (quiet.acceptances.trans (List.append_nil _).symm) (List.forall_mem_nil _)

theorem Waiting.run (waiting : Waiting state) (attached : Attached state)
    (numbered : Numbered state) (bounded : Bounded state) {block : TransactionBlock σ D}
    (held : state.txThread = .popped block) (ran : BlockRun block state next) :
    Waiting next := by
  have fewer := ran.subset held
  have leads := fun transaction (data : block.data = .direct transaction) =>
    ran.leads held data
  cases ran with
  | direct transaction reply data quiet pending executions =>
      exact waiting.quiet quiet fewer.subset
  | multiple exec transactions new data quiet pending executions same under =>
      exact waiting.quiet quiet fewer.subset
  | managed transaction reply boundary before after new data connected moves waits clients last
      sent pending acceptances boundaries executions =>
      intro slot origin occupied
      rw [clients, id_setWaitingBlock] at occupied
      have waitingAt := waiting slot origin occupied
      have tag : block.tag = transaction.tag := by rw [TransactionBlock.tag, data]
      by_cases same : slot = block.client
      · subst same
        have own := (attached.blocks block (held_block held)).1.occupant occupied
        rw [tag] at own
        subst own
        refine waitingAt.move numbered bounded moves waits (leads transaction data) ?_ boundaries
          acceptances
        rw [clients, clients_setWaitingBlock, if_pos rfl]
      · refine waitingAt.keep ?_ boundaries ?_ (fun _ member _ => fewer.subset member)
          (acceptances.trans (List.append_nil _).symm) (List.forall_mem_nil _)
        · rw [clients, clients_setWaitingBlock, if_neg same]
        · intro other member here
          rw [List.mem_singleton.mp member, ← tag] at here
          apply same
          apply numbered.home block (held_block held) slot
          rw [here]
          exact occupied

/-- A connection that comes has no block, and nothing of it waits. -/
theorem WaitingAt.connect {slot : Nat} (attached : Attached state) (bounded : Bounded state)
    (boundaries : next.boundaries = state.boundaries) (directs : next.directs = state.directs)
    (waits : (next.clients slot).waitingBlock = none) :
    WaitingAt next slot state.lastConnectionClientId := by
  have noDirect : ∀ transaction ∈ next.directs,
      transaction.tag.origin ≠ state.lastConnectionClientId := by
    intro transaction member same
    rw [directs] at member
    rcases List.mem_filterMap.mp member with ⟨block, pending, direct⟩
    have known := (attached.blocks block pending).1.1
    have tag : block.tag = transaction.tag := by
      unfold TransactionBlock.direct at direct
      unfold TransactionBlock.tag
      cases data : block.data with
      | direct other =>
          rw [data] at direct
          cases direct
          rfl
      | multiple exec transactions =>
          rw [data] at direct
          cases direct
    rw [tag, same] at known
    exact Nat.lt_irrefl _ known
  refine ⟨?_, ?_, ?_, ?_, ?_⟩
  · intro _ opener member same
    rw [boundaries] at member
    have known := bounded.known _ member
    rw [same] at known
    exact absurd known (Nat.lt_irrefl _)
  · intro waiting held
    rw [waits] at held
    cases held
  · intro waiting held
    rw [waits] at held
    cases held
  · intro transaction member same
    exact absurd same (noDirect transaction member)
  · intro transaction member same
    exact absurd same (noDirect transaction member)

theorem Waiting.advance (waiting : Waiting state) (attached : Attached state)
    (numbered : Numbered state) (bounded : Bounded state)
    (safe : misgroups state action = false) (advance : Advance config state action next) :
    Waiting next := by
  cases advance with
  | quiet _ _ quiet pending executions =>
      apply waiting.quiet quiet
      intro transaction member
      rw [State.directs, pending] at member
      exact member
  | connected slot admitted available =>
      intro other origin occupied
      simp only [Function.update_apply] at occupied
      split at occupied
      · next here =>
          rw [← Option.some.inj occupied]
          refine WaitingAt.connect attached bounded rfl rfl ?_
          simp only [Function.update_apply, if_pos here]
          rfl
      · next elsewhere =>
          refine (waiting other origin occupied).keep ?_ (List.append_nil _).symm
            (List.forall_mem_nil _) (fun _ member _ => member) (List.append_nil _).symm
            (List.forall_mem_nil _)
          exact congrArg Client.waitingBlock (Function.update_of_ne elsewhere _ _)
  | queued thread command args slot origin block transaction _ activity occupied unlocked waits
      made clients last sent pending acceptances boundaries executions =>
      rcases occupied with ⟨id, occupied⟩
      have own := (attached.readers thread slot origin (by rw [activity]; rfl)).1.occupant occupied
      subst own
      have tag : transaction.val.tag = ⟨id, state.sent id⟩ := by rw [made]; rfl
      have managesNone : command.waitingTx = false := by
        have property := transaction.property
        rw [made] at property
        exact property
      have noEnd : state.awaits id Command.endsBlock = false := by
        simpa [misgroups, activity, unlocked, waits, managesNone] using safe
      intro other connection occupiedOther
      rw [clients, id_setWaitingBlock] at occupiedOther
      have directs : next.directs = state.directs := by rw [State.directs, pending, State.directs]
      by_cases same : other = slot
      · subst same
        rw [occupied] at occupiedOther
        cases occupiedOther
        refine (waiting other id occupied).queue bounded waits tag noEnd ?_ boundaries directs
          acceptances
        rw [clients, clients_setWaitingBlock, if_pos rfl]
      · refine (waiting other connection occupiedOther).keep ?_
          (boundaries.trans (List.append_nil _).symm) (List.forall_mem_nil _)
          (fun _ member _ => directs ▸ member)
          acceptances ?_
        · rw [clients, clients_setWaitingBlock, if_neg same]
        · intro new member here
          rw [List.mem_singleton.mp member, tag] at here
          apply same
          apply attached.unique other slot connection occupiedOther
          rw [occupied]
          exact congrArg some here
  | enqueued thread command args slot origin transaction _ activity occupied unlocked direct made
      clients last sent pending acceptances boundaries executions =>
      rcases occupied with ⟨id, occupied⟩
      have own := (attached.readers thread slot origin (by rw [activity]; rfl)).1.occupant occupied
      subst own
      have tag : transaction.tag = ⟨id, state.sent id⟩ := by rw [made]; rfl
      have commandIs : transaction.command = command := by rw [made]; rfl
      have directs : next.directs = state.directs ++ [transaction] := by
        rw [State.directs, pending, List.filterMap_append]
        rfl
      intro other connection occupiedOther
      rw [clients] at occupiedOther
      by_cases same : other = slot
      · subst same
        rw [occupied] at occupiedOther
        cases occupiedOther
        refine (waiting other id occupied).enqueue numbered tag ?_ ?_ clients boundaries directs
          acceptances
        · rw [commandIs]
          exact direct
        · intro none managesNone
          rw [commandIs] at managesNone
          simpa [misgroups, activity, unlocked, none, managesNone] using safe
      · have elsewhere : transaction.tag.origin ≠ connection := by
          intro here
          rw [tag] at here
          apply same
          apply attached.unique other slot connection occupiedOther
          rw [occupied]
          exact congrArg some here
        refine (waiting other connection occupiedOther).keep ?_
          (boundaries.trans (List.append_nil _).symm) (List.forall_mem_nil _) ?_ acceptances ?_
        · rw [clients]
        · intro third member here
          rw [directs] at member
          rcases List.mem_append.mp member with old | new
          · exact old
          · rw [List.mem_singleton.mp new] at here
            exact absurd here elsewhere
        · intro new member
          rw [List.mem_singleton.mp member]
          exact elsewhere
  | ran block _ held run => exact waiting.run attached numbered bounded held run

/-! ## One step -/

/-- What was executed so far, and what waits in blocks. -/
def Records (state : State σ D K threads) : Prop :=
  Recorded (Departed state) state.boundaries state.acceptances state.executions state.multiples

omit [NeZero threads] in
theorem multiples_popped {block : TransactionBlock σ D} (held : state.txThread = .popped block) :
    state.multiples = block.multiple.toList ++ state.txQueue.filterMap TransactionBlock.multiple := by
  rw [State.multiples, pending_popped held, filterMap_cons_append]

/-- A command that is executed on its own was sent while its client had no block. -/
theorem outsideBlocks_direct {block : TransactionBlock σ D} {transaction : Transaction σ D}
    {execution : Execution σ D} (attached : Attached state) (numbered : Numbered state)
    (bounded : Bounded state) (waiting : Waiting state)
    (held : state.txThread = .popped block) (data : block.data = .direct transaction)
    (leads : state.directs = transaction :: next.directs)
    (managesNone : transaction.command.waitingTx = false)
    (executes : execution.transaction = transaction)
    (connected : execution.connected = (connectedClient state block.client).isSome) :
    OutsideBlocks (Departed state) state.boundaries execution := by
  have head : transaction ∈ state.directs := by
    rw [leads]
    exact List.mem_cons_self
  have tag : block.tag = transaction.tag := by rw [TransactionBlock.tag, data]
  have home := (attached.blocks block (held_block held)).1
  have earlier : ∀ boundary ∈ state.boundaries, boundary.2.Before transaction.tag :=
    fun boundary member => bounded.ahead boundary member transaction head
  rw [tag] at home
  unfold OutsideBlocks
  rw [executes, connected]
  cases occupied : (state.clients block.client).id with
  | some id =>
      have own := home.occupant occupied
      subst own
      have waitingAt := waiting block.client _ occupied
      refine .inl fun opener opens same before => ?_
      rcases waitingAt.closed (waitingAt.plain transaction head rfl managesNone) opener opens same
        with ⟨closer, closes, ends, here, after⟩
      exact ⟨closer, closes, ends, here.trans same.symm, after, earlier closer closes here⟩
  | none =>
      refine .inr ⟨?_, ⟨home.1, ?_⟩, earlier⟩
      · simp [connectedClient, occupied]
      · intro slot here
        rw [← tag] at here
        have same := numbered.home block (held_block held) slot here
        rw [same, occupied] at here
        cases here

theorem Records.run (records : Records state) (attached : Attached state)
    (numbered : Numbered state) (bounded : Bounded state) (waiting : Waiting state)
    {block : TransactionBlock σ D} (held : state.txThread = .popped block)
    (ran : BlockRun block state next) : Records next := by
  have leads := fun transaction (data : block.data = .direct transaction) =>
    ran.leads held data
  have lastOf := fun transaction (data : block.data = .direct transaction) =>
    ran.boundary_last held data numbered bounded
  have popped := multiples_popped held
  cases ran with
  | direct transaction reply data quiet pending executions =>
      have multiples : next.multiples = state.multiples := by
        rw [popped, State.multiples, pending, TransactionBlock.multiple, data]
        rfl
      have executed := Recorded.execute ⟨transaction, block.password,
        (connectedClient state block.client).isSome, none, reply⟩ records rfl
        fun managesNone => outsideBlocks_direct attached numbered bounded waiting held data
          (leads transaction data) managesNone rfl rfl
      have recorded := executed.depart fun origin => quiet.departed
      unfold Records
      rw [quiet.boundaries, quiet.acceptances, executions, multiples]
      exact recorded
  | multiple exec transactions new data quiet pending executions same under =>
      have multiples : state.multiples = (exec, transactions) :: next.multiples := by
        rw [popped, State.multiples, pending, TransactionBlock.multiple, data]
        rfl
      unfold Records at records ⊢
      rw [multiples] at records
      rw [quiet.boundaries, quiet.acceptances, executions]
      exact (records.executeBlock same under).depart fun origin => quiet.departed
  | managed transaction reply kind before after new data connected moves waits clients last
      sent pending acceptances boundaries executions =>
      have tag : block.tag = transaction.tag := by rw [TransactionBlock.tag, data]
      rcases (connectedClient_eq_some connected).2 with ⟨id, occupied⟩
      have own := (attached.blocks block (held_block held)).1.occupant occupied
      rw [tag] at own
      have waitingAt := waiting block.client id occupied
      have multiples : next.multiples =
          state.multiples ++ new.filterMap TransactionBlock.multiple := by
        rw [popped, State.multiples, pending, TransactionBlock.multiple, data,
          List.filterMap_append]
        rfl
      have head : transaction ∈ state.directs := by
        rw [leads transaction data]
        exact List.mem_cons_self
      have departs : ∀ origin, Departed state origin → Departed next origin := by
        intro origin away
        refine ⟨by rw [last]; exact away.1, ?_⟩
        intro slot here
        rw [clients, id_setWaitingBlock] at here
        exact away.2 slot here
      have enqueued : kind ≠ .committed ∧ new.filterMap TransactionBlock.multiple = [] ∨
          ∃ transactions opener, kind = .committed ∧
            new.filterMap TransactionBlock.multiple = [(transaction.tag, transactions)] ∧
            Matching state.boundaries opener transaction.tag ∧
            transactions.map Subtype.val =
              sentWithin state.acceptances opener transaction.tag := by
        rcases moves.enqueues with ⟨other, none⟩ | ⟨block, kindIs, ends, some, one⟩
        · exact .inl ⟨other, by rw [none]; rfl⟩
        · rw [some] at waits
          rcases waitingAt.opened block waits with ⟨opener, opens, here, latest, members⟩
          have sameOrigin : opener.origin = transaction.tag.origin := here.trans own
          refine .inr ⟨block.transactions, opener, kindIs, by rw [one]; rfl, ⟨opens,
            sameOrigin.symm, (lastOf transaction data).1 _ opens sameOrigin, ?_⟩, ?_⟩
          · intro boundary member same
            have least := latest boundary member (same.trans here)
            omega
          · rw [members, sentWithin, List.filter_eq_self.mpr]
            intro member inside
            rw [← members] at inside
            rcases List.mem_map.mp inside with ⟨queued, within, rfl⟩
            exact decide_eq_true
              (waitingAt.ends block waits transaction head own.symm ends queued within)
      have bound := records.bound (lastOf transaction data).1
        (fun execution member direct =>
          (numbered.executed execution member direct).2 transaction head)
        (fun away => away.2 block.client (own ▸ occupied)) enqueued
      have executed := bound.execute ⟨transaction, block.password,
        (connectedClient state block.client).isSome, none, reply⟩ rfl (by
          intro managesNone
          rw [moves.waitingTx] at managesNone
          cases managesNone)
      unfold Records
      rw [boundaries, acceptances, executions, multiples]
      exact executed.depart departs

theorem Records.advance (records : Records state) (attached : Attached state)
    (numbered : Numbered state) (bounded : Bounded state) (waiting : Waiting state)
    (advance : Advance config state action next) : Records next := by
  have accepted : ∀ {transaction : Transaction σ D},
      transaction.tag.sequence = state.sent transaction.tag.origin →
      ∀ boundary ∈ state.boundaries, boundary.2.Before transaction.tag := by
    intro transaction number boundary member same
    rw [number, ← same]
    exact bounded.sent boundary member
  cases advance with
  | quiet _ _ quiet pending executions =>
      unfold Records
      rw [quiet.boundaries, quiet.acceptances, executions, State.multiples, pending]
      exact records.depart fun origin => quiet.departed
  | connected slot admitted available =>
      refine records.depart fun origin away => ⟨Nat.lt_succ_of_lt away.1, ?_⟩
      intro other here
      simp only [Function.update_apply] at here
      split at here
      · have same : state.lastConnectionClientId = origin := Option.some.inj here
        have known := away.1
        omega
      · exact away.2 other here
  | queued thread command args slot origin block transaction _ activity occupied unlocked waits
      made clients last sent pending acceptances boundaries executions =>
      have departs : ∀ origin, Departed state origin → Departed next origin := by
        intro origin away
        refine ⟨by rw [last]; exact away.1, ?_⟩
        intro other here
        rw [clients, id_setWaitingBlock] at here
        exact away.2 other here
      unfold Records
      rw [boundaries, acceptances, executions, State.multiples, pending]
      exact (records.accept (accepted (by rw [made]; rfl))).depart departs
  | enqueued thread command args slot origin transaction _ activity occupied unlocked direct made
      clients last sent pending acceptances boundaries executions =>
      have departs : ∀ origin, Departed state origin → Departed next origin := by
        intro origin away
        refine ⟨by rw [last]; exact away.1, ?_⟩
        intro other here
        rw [clients] at here
        exact away.2 other here
      unfold Records
      rw [boundaries, acceptances, executions, State.multiples, pending, List.filterMap_append]
      exact List.append_nil state.multiples ▸
        (records.accept (accepted (by rw [made]; rfl))).depart departs
  | ran block _ held run => exact records.run attached numbered bounded waiting held run

/-- All that a step keeps. -/
structure Grouping (state : State σ D K threads) : Prop where
  attached : Attached state
  numbered : Numbered state
  bounded : Bounded state
  waiting : Waiting state
  records : Records state

theorem Grouping.step [DecidableEq K] (grouping : Grouping state)
    (safe : reusesSlot config state action = false ∧ misgroups state action = false)
    (stepped : step config state action = some next) : Grouping next := by
  have advance := step_advance stepped
  rcases grouping with ⟨attached, numbered, bounded, waiting, records⟩
  exact {
    attached := attached.step safe.1 stepped
    numbered := numbered.step attached stepped
    bounded := bounded.advance attached numbered advance
    waiting := waiting.advance attached numbered bounded safe.2 advance
    records := records.advance attached numbered bounded waiting advance }

end Steps

/-! ## Every run -/

section Runs

variable {boundaries : List (Boundary × Tag)} {state : State σ D K threads}

/-- Two blocks one command was sent in are the same. -/
theorem Matching.unique {opener closer other ending tag : Tag}
    (first : Matching boundaries opener closer) (second : Matching boundaries other ending)
    {kind kindOther : Boundary} (closes : (kind, closer) ∈ boundaries)
    (ends : (kindOther, ending) ∈ boundaries) (origin : opener.origin = tag.origin)
    (originOther : other.origin = tag.origin)
    (within : opener.sequence < tag.sequence ∧ tag.sequence < closer.sequence)
    (withinOther : other.sequence < tag.sequence ∧ tag.sequence < ending.sequence) :
    opener = other ∧ closer = ending := by
  have openerOut := second.between _ first.opened (origin.trans originOther.symm)
  have otherOut := first.between _ second.opened (originOther.trans origin.symm)
  have closerOut := second.between _ closes
    ((first.origin.trans origin).trans originOther.symm)
  have endingOut := first.between _ ends
    ((second.origin.trans originOther).trans origin.symm)
  have firstOrigin := first.origin
  have secondOrigin := second.origin
  cases opener
  cases closer
  cases other
  cases ending
  simp only [Tag.mk.injEq] at *
  omega

theorem Bounded.unique (bounded : Bounded state) {first second : Boundary} {tag : Tag}
    (one : (first, tag) ∈ state.boundaries) (other : (second, tag) ∈ state.boundaries) :
    first = second := by
  have distinct : (state.boundaries.map Prod.snd).Nodup := by
    apply List.pairwise_map.mpr
    refine bounded.sorted.imp fun before same => ?_
    have less := before (congrArg Tag.origin same)
    rw [same] at less
    exact Nat.lt_irrefl _ less
  have same := List.inj_on_of_nodup_map distinct one other rfl
  exact congrArg Prod.fst same

variable [NeZero threads]

theorem mem_executedUnder {executions : List (Execution σ D)} {execution : Execution σ D}
    {exec : Tag} (member : execution ∈ executions) (under : execution.block = some exec) :
    execution.transaction ∈ executedUnder executions exec :=
  List.mem_map_of_mem (List.mem_filter.mpr ⟨member, decide_eq_true under⟩)

/-- What is executed under an EXEC was sent within its block. -/
theorem Grouping.within (grouping : Grouping state) {execution : Execution σ D} {exec : Tag}
    (member : execution ∈ state.executions) (under : execution.block = some exec) :
    (.committed, exec) ∈ state.boundaries ∧ ∃ opener, Matching state.boundaries opener exec ∧
      execution.transaction ∈ sentWithin state.acceptances opener exec := by
  have committed := grouping.records.under execution member exec under
  have inside := mem_executedUnder member under
  refine ⟨committed, ?_⟩
  rcases grouping.records.committed exec committed with
    ⟨block, waits, same⟩ | ⟨opener, matching, members⟩
  · have none := (grouping.records.waiting block waits).2.1
    rw [same] at none
    rw [none] at inside
    cases inside
  · rw [members] at inside
    exact ⟨opener, matching, inside⟩

/-- What was sent within a block that ended is executed under its end, or never. -/
theorem Grouping.under (grouping : Grouping state) {execution : Execution σ D}
    {opener closer : Tag} {kind : Boundary} (member : execution ∈ state.executions)
    (closes : (kind, closer) ∈ state.boundaries)
    (matching : Matching state.boundaries opener closer)
    (inside : execution.transaction ∈ sentWithin state.acceptances opener closer) :
    execution.block = some closer := by
  rcases mem_sentWithin.mp inside with ⟨after, before⟩
  rcases mem_sentAfter.mp after with ⟨_, managesNone, origin, since⟩
  cases block : execution.block with
  | none =>
      rcases grouping.records.outside execution member block managesNone with
        ended | ⟨_, _, last⟩
      · rcases ended opener matching.opened origin.symm since with
          ⟨between, known, _, same, later, earlier⟩
        exact absurd ⟨later, Nat.lt_trans earlier before⟩ (matching.between between known same)
      · have less := last _ closes (matching.origin.trans origin.symm)
        exact absurd (Nat.lt_trans less before) (Nat.lt_irrefl _)
  | some exec =>
      rcases grouping.within member block with ⟨committed, other, matchingOther, insideOther⟩
      rcases mem_sentWithin.mp insideOther with ⟨afterOther, beforeOther⟩
      rcases mem_sentAfter.mp afterOther with ⟨_, _, originOther, sinceOther⟩
      rw [(matching.unique matchingOther closes committed origin.symm originOther.symm
        ⟨since, before⟩ ⟨sinceOther, beforeOther⟩).2]

end Runs

end TellyDB.Server
