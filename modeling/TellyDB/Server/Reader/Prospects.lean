import TellyDB.Server.Reader.Views

/-!
Owns what the steps of `read_command`, and those beside it, make of what is to come: behind each
of its steps the rest is read to its end exactly when it was before.
-/

namespace TellyDB.Server.Reader

open Resp

/-- Where the strings are of what the reader is at. -/
def Placed (state : State) (scan : Scan) : Activity → Prop
  | .idle => True
  | .parsing stage => Within 0 scan.position stage.ranges
  | .parsed command => Names state command scan
  | .ready command _ => Located state command

/-- What is left is read to its end. -/
def Prospect (known : Bytes → Bool) (state : State) (scan : Scan) : Activity → Prop
  | .idle => True
  | .parsing stage => Returns known stage scan
  | .parsed command => Goes known scan command.name.range
  | .ready command more => more = true → ∀ name, state.read command.name = some name →
      Returns known .type (scan.hand known name)

section Steps

variable {config : Config} {state next : State} {scan : Scan} {command : Command} {more : Bool}

/-! ## A parser -/

theorem Sees.parses (sees : Sees state scan) {stage : Stage} {moved : Bool}
    (parsing : state.activity = .parsing stage) (within : Within 0 scan.position stage.ranges)
    (took : take config state moved = some next) :
    next.activity ≠ .idle ∧ ∃ after, Sees next after ∧ after.shared = scan.shared ∧
      Placed next after next.activity ∧
      (Returns config.known stage scan ↔ Prospect config.known next after next.activity) := by
  obtain ⟨after, parsed, comes, shared, same⟩ := sees.took parsing within took
  cases parsed with
  | more later =>
      obtain ⟨activity, afterSees, located⟩ := comes
      rw [activity]
      exact ⟨Activity.noConfusion, after, afterSees, shared, located, same config.known⟩
  | failed =>
      obtain ⟨activity, afterSees⟩ := comes
      rw [activity]
      exact ⟨Activity.noConfusion, after, afterSees, shared, Within.nil, same config.known⟩
  | overflow => exact comes.elim
  | command name args inline =>
      obtain ⟨fits, command, activity, afterSees, names, range⟩ := comes
      rw [activity]
      refine ⟨Activity.noConfusion, _, afterSees, ?_, names, (same config.known).trans ?_⟩
      · rw [(ended_same after inline (name :: args)).2.2.2]
        exact shared
      · rw [Prospect, range]
        exact and_iff_right fits

/-- A parser does not touch the transactions. -/
theorem takeNBytes_transactions {n : Nat} {moved : Bool} {offset : Option Nat}
    (taken : takeNBytes config state n moved = some (next, offset)) :
    next.pending = state.pending ∧ next.readBuf = state.readBuf := by
  rcases takeNBytes_eq taken with ⟨_, rfl, _⟩ | ⟨_, read, count, ⟨reads⟩, ended⟩
  · exact ⟨rfl, rfl⟩
  · have pending := reads.undisturbed.pending
    have readBuf : read.readBuf = state.readBuf := by
      rw [(readFromSocket_framed reads.filled).readBuf]
      rcases reads.room with ⟨_, grew⟩ | ⟨_, same⟩
      · exact growBuffer_readBuf grew
      · rw [same]
    rcases ended with ⟨_, rfl, _⟩ | ⟨_, _, rfl⟩
    · exact ⟨pending, readBuf⟩
    · exact ⟨pending, readBuf⟩

theorem take_transactions {moved : Bool} (took : take config state moved = some next) :
    next.pending = state.pending ∧ next.readBuf = state.readBuf := by
  obtain ⟨stage, taken, offset, buffer, content, _, bytes, _, _, continues⟩ := take_eq took
  rw [← (takeNBytes_transactions bytes).1, ← (takeNBytes_transactions bytes).2]
  generalize stage.next _ _ _ _ = parsed at continues
  cases continues with
  | more later => exact ⟨rfl, rfl⟩
  | failed => exact ⟨rfl, rfl⟩
  | command inline ended resolved =>
      rename_i name args terminated
      have kept : terminated.pending = taken.pending ∧ terminated.readBuf = taken.readBuf := by
        split at ended
        · have framed := (terminateStrings_framed ended).1
          exact ⟨framed.pending, framed.readBuf⟩
        · cases ended
          exact ⟨rfl, rfl⟩
      rcases Option.bind_eq_some_iff.mp resolved with ⟨buffer, _, resolved⟩
      rcases Option.bind_eq_some_iff.mp resolved with ⟨content, _, resolved⟩
      cases resolved
      exact kept

/-! ## The end of the buffer -/

/-- A buffer to which no transaction refers has the reference of the client only. -/
theorem Counted.single {buffer : QueryBuffer} (counted : Counted state) (alone : Alone state)
    (current : state.current = some buffer) : buffer.refcount ≤ 1 := by
  have none_ : state.pending.countP (fun transaction => transaction.readBuf = state.readBuf) = 0 :=
    List.countP_eq_zero.mpr fun queued member own =>
      alone queued member (of_decide_eq_true own)
  rw [counted.refcount state.readBuf buffer current, State.references, none_]
  split <;> omega

/-- The bytes of the name of a command. -/
theorem Sees.name (sees : Sees state scan) (names : Names state command scan) :
    state.read command.name = some (scan.string command.name.range) := by
  obtain ⟨buffer, content, current, allocated, -, lies⟩ := sees.memory
  obtain ⟨own, same, block, -⟩ := names.found
  rw [current] at same
  cases same
  rw [State.read, block, allocated]
  exact congrArg some (lies.string names.inside)

/-- The buffer is filled again. -/
theorem Sees.refills (sees : Sees state scan) (names : Names state command scan)
    (alone : Alone state) {read : State} {count : Option Nat}
    (refills : Refills config state read count) {again : State}
    (same : again = { read with
      activity := .ready command count.isSome, position := 0, size := count.getD 0 }) :
    count.isSome = true ∧ Sees again scan.refill ∧ Located again command ∧
      again.read command.name = some (scan.overwritten command.name.range) ∧
      again.pending = state.pending ∧ again.readBuf = state.readBuf := by
  obtain ⟨fresh, fill, refreshed, fillCurrent, filled⟩ := refills
  obtain ⟨buffer, content, current, allocated, capacity, lies⟩ := sees.memory
  obtain ⟨own, ownCurrent, ⟨-, rfl⟩ | ⟨several, -⟩⟩ := refreshBuffer_eq refreshed
  · rw [current] at fillCurrent
    cases fillCurrent
    obtain ⟨kept, before, left, keptCurrent, beforeAllocated, gives, rfl, rfl⟩ :=
      sees.socket.read filled
    rw [current] at keptCurrent
    cases keptCurrent
    rw [allocated] at beforeAllocated
    cases beforeAllocated
    have framed := readFromSocket_framed filled
    have overlaid := lies.overwrite (scan.rest.take scan.capacity)
    obtain ⟨_, located, block, args⟩ := names.found
    rw [current] at located
    cases located
    rw [capacity] at same
    subst same
    have bytes : (State.setBlock fresh fill.data (some (writeBytes content 0
        (scan.rest.take scan.capacity)))).blocks fill.data =
          some (writeBytes content 0 (scan.rest.take scan.capacity)) :=
      Function.update_self ..
    refine ⟨rfl, ?_, ⟨fill, current, block, args⟩, ?_, rfl, rfl⟩
    · exact {
        counted := by
          have counted := framed.counted sees.counted
          rw [capacity] at counted
          exact { counted with }
        connected := sees.connected
        plain := sees.plain
        memory := ⟨fill, _, current, bytes, capacity, overlaid.first⟩
        size := rfl
        position := rfl
        ordered := Nat.zero_le _
        inside := by
          change (scan.rest.take scan.capacity).length ≤ scan.capacity
          rw [List.length_take]
          exact Nat.min_le_left _ _
        socket := by
          rw [capacity] at gives
          exact gives
        full := fun left => by
          have more : scan.capacity < scan.rest.length := by
            by_contra short
            exact left (List.drop_of_length_le (Nat.le_of_not_lt short))
          change (scan.rest.take scan.capacity).length = scan.capacity
          rw [List.length_take, Nat.min_eq_left (Nat.le_of_lt more)]
        alone := fun _ => alone_congr alone rfl rfl }
    · rw [State.read, block, bytes]
      refine congrArg some (overlaid.string ?_)
      rw [List.length_append, List.length_drop]
      have inside := names.inside
      omega
  · exact absurd (sees.counted.single alone ownCurrent) (Nat.not_le_of_lt several)

/-- Behind a command, unless the buffer is full and a transaction may refer to it. -/
theorem Sees.ends (sees : Sees state scan) (parsed : state.activity = .parsed command)
    (names : Names state command scan)
    (own : scan.shared = true → scan.position = scan.held.length →
      scan.held.length ≠ scan.capacity)
    (checked : checkEnd config state = some next) :
    ∃ after more, next.activity = .ready command more ∧ Sees next after ∧
      after.shared = scan.shared ∧ Located next command ∧
      (Goes config.known scan command.name.range ↔
        Prospect config.known next after (.ready command more)) ∧
      next.pending = state.pending ∧ next.readBuf = state.readBuf := by
  obtain ⟨buffer, content, current, allocated, capacity, lies⟩ := sees.memory
  obtain ⟨_, _, again, againCurrent, ways⟩ := checkEnd_eq checked
  rw [parsed] at again
  cases again
  rw [current] at againCurrent
  cases againCurrent
  rcases ways with ⟨left, rfl⟩ | ⟨ended, room, rfl⟩ | ⟨ended, full, read, count, ⟨refills⟩, same⟩
  · rw [sees.size, sees.position] at left
    refine ⟨scan, true, rfl, sees.doing _, rfl, names.found, ?_, rfl, rfl⟩
    constructor
    · rintro (⟨ended, -⟩ | ⟨-, returns⟩ | ⟨ended, -⟩) - name found
      · exact absurd ended.symm left
      · obtain rfl := Option.some.inj ((sees.name names).symm.trans found)
        exact returns
      · exact absurd ended.symm left
    · exact fun later => .inr (.inl ⟨fun ended => left ended.symm, later rfl _ (sees.name names)⟩)
  · rw [sees.size, sees.position] at ended
    rw [sees.size, capacity] at room
    refine ⟨scan, false, rfl, sees.doing _, rfl, names.found, ?_, rfl, rfl⟩
    exact iff_of_true (.inl ⟨ended.symm, room⟩) fun more => Bool.noConfusion more
  · rw [sees.size, sees.position] at ended
    rw [sees.size, capacity] at full
    have unshared : scan.shared = false := by
      by_contra shared
      exact own (Bool.not_eq_false _ ▸ shared) ended.symm full
    obtain ⟨counts, afterSees, located, name, pending, readBuf⟩ :=
      sees.refills names (sees.alone unshared) refills same
    refine ⟨scan.refill, true, ?_, afterSees, unshared.symm, located, ?_, pending, readBuf⟩
    · rw [same, counts]
    · constructor
      · rintro (⟨-, room⟩ | ⟨left, -⟩ | ⟨-, -, -, returns⟩) - found named
        · exact absurd full room
        · exact absurd ended.symm left
        · obtain rfl := Option.some.inj (name.symm.trans named)
          exact returns
      · exact fun later => .inr (.inr ⟨ended.symm, full, unshared, later rfl _ name⟩)

theorem Sees.checkEnd_isSome (sees : Sees state scan) (parsed : state.activity = .parsed command) :
    ∃ next, checkEnd config state = some next := by
  obtain ⟨buffer, content, current, allocated, -⟩ := sees.memory
  obtain ⟨fresh, refreshed⟩ : ∃ fresh, refreshBuffer config state = some fresh := by
    rw [refreshBuffer, current]
    simp only [Option.bind_eq_bind, Option.bind_some]
    split <;> exact ⟨_, rfl⟩
  have counted := refreshBuffer_counted sees.counted sees.connected refreshed
  have undisturbed := refreshBuffer_undisturbed refreshed
  obtain ⟨fill, fillCurrent⟩ := counted.current (undisturbed.connected.trans sees.connected)
  obtain ⟨kept, keptAllocated⟩ :=
    Option.ne_none_iff_exists'.mp (counted.data _ fill fillCurrent)
  obtain ⟨⟨read, count⟩, filled⟩ := readFromSocket_isSome (undisturbed.ssl.trans sees.plain)
    fillCurrent keptAllocated 0 fill.size
  simp only [checkEnd, parsed, current, refreshed, fillCurrent, filled, Option.bind_eq_bind,
    Option.bind_some]
  split
  · split <;> exact ⟨_, rfl⟩
  · exact ⟨_, rfl⟩

/-! ## The command -/

/-- The strings of a command that lie in the buffer of the client are read. -/
theorem Sees.reading (sees : Sees state scan) {pointer : Pointer} {buffer : QueryBuffer}
    (current : state.current = some buffer) (block : pointer.block = buffer.data) :
    ∃ bytes, state.read pointer = some bytes := by
  obtain ⟨own, content, same, allocated, -⟩ := sees.memory
  rw [current] at same
  cases same
  rw [State.read, block, allocated]
  exact ⟨_, rfl⟩

/-- The command goes to the queue, or nowhere. -/
theorem Sees.delivers (sees : Sees state scan) (ready : state.activity = .ready command more)
    (located : Located state command) {allocated : Bool}
    (delivered : deliver config state allocated = some next) :
    (next.activity = .idle ∧ (more = false ∨ allocated = false)) ∨
      (more = true ∧ next.activity = .parsing .type ∧
      ∃ name, state.read command.name = some name ∧ Sees next (scan.hand config.known name)) := by
  obtain ⟨buffer, current, block, args⟩ := located
  obtain ⟨name, named⟩ := sees.reading current block
  obtain ⟨_, _, again, delivers⟩ := deliver_eq delivered
  rw [ready] at again
  cases again
  have looped : ∀ activity,
      Sees { state with activity := activity } (scan.hand config.known name) := by
    intro activity
    have doing := sees.doing activity
    exact { doing with alone := fun shared => doing.alone (Bool.or_eq_false_iff.mp shared).1 }
  cases more with
  | false =>
      refine .inl ⟨?_, .inl rfl⟩
      cases delivers with
      | locked => rfl
      | unknown => rfl
      | handed _ _ _ _ added =>
          split at added
          · obtain ⟨_, _, added⟩ := Option.bind_eq_some_iff.mp added
            cases added
            rfl
          · rw [added]
  | true =>
      cases delivers with
      | locked => exact .inr ⟨rfl, rfl, name, named, looped _⟩
      | unknown => exact .inr ⟨rfl, rfl, name, named, looped _⟩
      | handed _ again known read added =>
          rw [named] at again
          cases again
          split at added
          · refine .inr ⟨rfl, ?_⟩
            have counted := addTransaction_counted (by exact { sees.counted with }) added
            obtain ⟨own, ownCurrent, added⟩ := Option.bind_eq_some_iff.mp added
            cases added
            rw [show state.current = some own from ownCurrent] at current
            cases current
            obtain ⟨same, content, sameCurrent, allocated, capacity, lies⟩ := sees.memory
            rw [show state.current = some buffer from ownCurrent] at sameCurrent
            cases sameCurrent
            refine ⟨rfl, name, named, ?_⟩
            exact {
              counted := counted
              connected := sees.connected
              plain := sees.plain
              memory := ⟨{ buffer with refcount := buffer.refcount + 1 }, content,
                Function.update_self .., allocated, capacity, lies⟩
              size := sees.size
              position := sees.position
              ordered := sees.ordered
              inside := sees.inside
              socket := sees.socket
              full := sees.full
              alone := fun shared => by
                have unknown := (Bool.or_eq_false_iff.mp shared).2
                rw [known] at unknown
                cases unknown }
          · rename_i refused
            refine .inl ⟨?_, .inr (Bool.not_eq_true _ ▸ refused)⟩
            rw [added]

/-- The transaction of a command that was known refers to the buffer of the client. -/
theorem deliver_waits {name : Bytes} (ready : state.activity = .ready command more)
    (unlocked : state.locked = false) (named : state.read command.name = some name)
    (waits : scan.shared = true → ¬ Alone state)
    (delivered : deliver config state true = some next) :
    (scan.hand config.known name).shared = true → ¬ Alone next := by
  obtain ⟨_, _, again, delivers⟩ := deliver_eq delivered
  rw [ready] at again
  cases again
  intro shared alone
  cases delivers with
  | locked locked =>
      rw [unlocked] at locked
      cases locked
  | unknown _ same unknown =>
      rw [named] at same
      cases same
      rw [Scan.hand, unknown, Bool.or_false] at shared
      exact waits shared (alone_congr alone rfl rfl)
  | handed _ _ _ _ added =>
      obtain ⟨buffer, _, added⟩ := Option.bind_eq_some_iff.mp ((if_pos rfl).mp added)
      cases added
      exact alone _ (List.mem_append_right _ (List.mem_singleton_self _)) rfl

theorem mapM_read_isSome {args : List Pointer}
    (found : ∀ pointer ∈ args, ∃ bytes, state.read pointer = some bytes) :
    ∃ strings, args.mapM state.read = some strings := by
  induction args with
  | nil => exact ⟨[], rfl⟩
  | cons pointer rest inductionHypothesis =>
      obtain ⟨bytes, first⟩ := found pointer (List.mem_cons_self ..)
      obtain ⟨strings, later⟩ := inductionHypothesis fun other member =>
        found other (List.mem_cons_of_mem _ member)
      refine ⟨bytes :: strings, ?_⟩
      rw [List.mapM_cons, first, later]
      rfl

theorem Sees.deliver_isSome (sees : Sees state scan) (ready : state.activity = .ready command more)
    (located : Located state command) (allocated : Bool) :
    ∃ next, deliver config state allocated = some next := by
  obtain ⟨buffer, current, block, args⟩ := located
  obtain ⟨name, named⟩ := sees.reading current block
  obtain ⟨strings, read⟩ := mapM_read_isSome fun pointer member =>
    sees.reading current (args pointer member)
  have added : ∀ handed : State, handed.buffers = state.buffers →
      handed.readBuf = state.readBuf → ∃ next, addTransaction handed command = some next := by
    intro handed buffers readBuf
    have same : handed.current = some buffer := by
      rw [State.current, buffers, readBuf]
      exact current
    rw [addTransaction, same]
    exact ⟨_, rfl⟩
  rw [deliver, ready]
  dsimp only
  split
  · exact ⟨_, rfl⟩
  · simp only [named, read, Option.bind_eq_bind, Option.bind_some]
    split
    · cases allocated with
      | false => exact ⟨_, rfl⟩
      | true => exact added _ rfl rfl
    · exact ⟨_, rfl⟩

/-! ## Which step is next -/

theorem steps_parsing {action : Action} {stage : Stage} (parsing : state.activity = .parsing stage)
    (reading : action.Reading) (stepped : step config state action = some next) :
    ∃ moved, action = .take moved ∧ take config state moved = some next := by
  cases action with
  | take moved => exact ⟨moved, rfl, (Option.ite_none_right_eq_some.mp stepped).2⟩
  | checkEnd =>
      obtain ⟨_, _, parsed, _⟩ := checkEnd_eq (Option.ite_none_right_eq_some.mp stepped).2
      rw [parsing] at parsed
      cases parsed
  | deliver allocated =>
      obtain ⟨_, _, ready, _⟩ := deliver_eq (Option.ite_none_right_eq_some.mp stepped).2
      rw [parsing] at ready
      cases ready
  | _ => exact reading.elim

theorem steps_ready {action : Action} (ready : state.activity = .ready command more)
    (reading : action.Reading) (stepped : step config state action = some next) :
    ∃ allocated, action = .deliver allocated ∧ deliver config state allocated = some next := by
  cases action with
  | take moved =>
      obtain ⟨_, _, _, _, _, parsing, _⟩ := take_eq (Option.ite_none_right_eq_some.mp stepped).2
      rw [ready] at parsing
      cases parsing
  | checkEnd =>
      obtain ⟨_, _, parsed, _⟩ := checkEnd_eq (Option.ite_none_right_eq_some.mp stepped).2
      rw [ready] at parsed
      cases parsed
  | deliver allocated => exact ⟨allocated, rfl, (Option.ite_none_right_eq_some.mp stepped).2⟩
  | _ => exact reading.elim

/-! ## The other threads -/

/-- The end of a transaction leaves the buffer of the client. -/
theorem Sees.executes (sees : Sees state scan) {index : Nat}
    (executed : execute state index = some next) :
    Sees next scan ∧ next.activity = state.activity ∧
      (∀ command, Located state command → Located next command) ∧
      ∀ buffer, state.current = some buffer → next.blocks buffer.data = state.blocks buffer.data := by
  have counted := execute_counted sees.counted executed
  obtain ⟨transaction, found, released⟩ := Option.bind_eq_some_iff.mp executed
  obtain ⟨undisturbed, readBuf⟩ := releaseBuffer_undisturbed released
  have socket := releaseBuffer_socket released
  obtain ⟨buffer, content, current, allocated, capacity, lies⟩ := sees.memory
  have rest : CountedBy state.references
      { state with pending := state.pending.eraseIdx index } := { sees.counted with }
  have member : transaction ∈ state.pending := List.mem_of_getElem? found
  obtain ⟨block, after, afterFound, data, size⟩ := releaseBuffer_shared rest
    (show _ = some buffer from current)
    (fun own => references_shared member sees.connected own) released
  have afterCurrent : next.current = some after := by
    rw [State.current, readBuf]
    exact afterFound
  refine ⟨?_, undisturbed.activity, ?_, ?_⟩
  · exact {
      counted := counted
      connected := undisturbed.connected.trans sees.connected
      plain := undisturbed.ssl.trans sees.plain
      memory := ⟨after, content, afterCurrent, by rw [data, block]; exact allocated,
        size.trans capacity, lies⟩
      size := undisturbed.size.trans sees.size
      position := undisturbed.position.trans sees.position
      ordered := sees.ordered
      inside := sees.inside
      socket := by
        rw [socket]
        exact sees.socket
      full := sees.full
      alone := fun shared queued waits => by
        rw [undisturbed.pending] at waits
        rw [readBuf]
        exact sees.alone shared queued (List.mem_of_mem_eraseIdx waits) }
  · rintro command ⟨own, same, lies, args⟩
    rw [current] at same
    cases same
    refine ⟨after, afterCurrent, ?_, ?_⟩
    · rw [data]
      exact lies
    · rw [data]
      exact args
  · intro own same
    rw [current] at same
    cases same
    exact block

end Steps

end TellyDB.Server.Reader
