import TellyDB.Server.Reader.Prospects

/-!
Owns when `read_command` returns, whatever the other threads do meanwhile: exactly when the client
does not use TLS and the delivered bytes, if there are any, are read to their end.
-/

namespace TellyDB.Server.Reader

open Resp Lib.Transition

section Runs

variable {config : Config} {state next : State} {scan : Scan} {command : Command} {more : Bool}

/-- `read_command` returns from where it is. -/
abbrev Returning (config : Config) : State → Prop :=
  Finishes (step config) Action.Reading Action.Elsewhere fun state => state.activity = .idle

/-! ## Bytes that are read to their end -/

/-- The reader is idle, or reads what is left to its end. -/
def OnTrack (config : Config) (state : State) : Prop :=
  state.activity = .idle ∨ ∃ scan, Sees state scan ∧ Placed state scan state.activity ∧
    Prospect config.known state scan state.activity

theorem not_onTrack_starving (track : OnTrack config state) : ¬ state.Starving := by
  rintro ⟨parsing, ended, nothing⟩
  rcases track with idle | ⟨scan, sees, placed, prospect⟩
  · rw [parsing] at idle
    cases idle
  · rw [parsing] at prospect
    refine not_returns_type ⟨?_, ?_⟩ prospect
    · rw [sees.size, sees.position] at ended
      exact Nat.le_antisymm sees.ordered ended
    · rcases sees.socket with some_ | ⟨-, left⟩
      · rw [nothing] at some_
        cases some_
      · exact left

/-- It has a step. -/
theorem OnTrack.enabled (track : OnTrack config state) :
    state.activity = .idle ∨ ∃ action next, action.Reading ∧ step config state action = some next := by
  rcases track with idle | ⟨scan, sees, placed, prospect⟩
  · exact .inl idle
  · cases doing : state.activity with
    | idle => exact .inl rfl
    | parsing stage =>
        rw [doing] at prospect
        obtain ⟨next, took⟩ := sees.take_isSome doing prospect false
        exact .inr ⟨.take false, next, trivial, (if_pos sees.connected).trans took⟩
    | parsed command =>
        obtain ⟨next, checked⟩ := sees.checkEnd_isSome doing
        exact .inr ⟨.checkEnd, next, trivial, (if_pos sees.connected).trans checked⟩
    | ready command more =>
        rw [doing] at placed
        obtain ⟨next, delivered⟩ := sees.deliver_isSome doing placed false
        exact .inr ⟨.deliver false, next, trivial, (if_pos sees.connected).trans delivered⟩

/-- Its own steps, and those of the others, keep it there. -/
theorem OnTrack.step {action : Action} (track : OnTrack config state)
    (known : action.Reading ∨ action.Elsewhere) (stepped : step config state action = some next) :
    OnTrack config next := by
  rcases track with idle | ⟨scan, sees, placed, prospect⟩
  · rcases known with reading | elsewhere
    · exact absurd stepped ((reader_spins config).stopped state action next idle reading)
    · exact .inl (((reader_spins config).kept state action next elsewhere stepped).1.mpr idle)
  · cases action with
    | take moved =>
        have took := (Option.ite_none_right_eq_some.mp stepped).2
        obtain ⟨stage, _, _, _, _, parsing, _⟩ := take_eq took
        rw [parsing] at placed prospect
        obtain ⟨-, after, afterSees, -, afterPlaced, same⟩ := sees.parses parsing placed took
        exact .inr ⟨after, afterSees, afterPlaced, same.mp prospect⟩
    | checkEnd =>
        have checked := (Option.ite_none_right_eq_some.mp stepped).2
        obtain ⟨command, _, parsed, _⟩ := checkEnd_eq checked
        rw [parsed] at placed prospect
        have own : scan.shared = true → scan.position = scan.held.length →
            scan.held.length ≠ scan.capacity := by
          rintro shared ended full
          rcases prospect with ⟨-, room⟩ | ⟨left, -⟩ | ⟨-, -, unshared, -⟩
          · exact room full
          · exact left ended
          · rw [shared] at unshared
            cases unshared
        obtain ⟨after, more, ready, afterSees, -, located, same, -⟩ :=
          sees.ends parsed placed own checked
        refine .inr ⟨after, afterSees, ?_⟩
        rw [ready]
        exact ⟨located, same.mp prospect⟩
    | deliver allocated =>
        have delivered := (Option.ite_none_right_eq_some.mp stepped).2
        obtain ⟨command, more, ready, _⟩ := deliver_eq delivered
        rw [ready] at placed prospect
        rcases sees.delivers ready placed delivered with
          ⟨idle, -⟩ | ⟨rfl, parsing, name, named, afterSees⟩
        · exact .inl idle
        · refine .inr ⟨_, afterSees, ?_⟩
          rw [parsing]
          exact ⟨Within.nil, prospect rfl name named⟩
    | execute index =>
        obtain ⟨afterSees, activity, located, blocks⟩ := sees.executes stepped
        refine .inr ⟨scan, afterSees, ?_⟩
        rw [activity]
        cases doing : state.activity with
        | idle => exact ⟨trivial, trivial⟩
        | parsing stage =>
            rw [doing] at placed prospect
            exact ⟨placed, prospect⟩
        | parsed command =>
            rw [doing] at placed prospect
            exact ⟨⟨located command placed.found, placed.inside⟩, prospect⟩
        | ready command more =>
            rw [doing] at placed prospect
            refine ⟨located command placed, fun more name found => prospect more name ?_⟩
            obtain ⟨buffer, current, block, -⟩ := placed
            rw [State.read, block, ← blocks buffer current, ← block]
            exact found
    | lock locked =>
        cases stepped
        have afterSees : Sees { state with locked := locked } scan := { sees with
          counted := { sees.counted with }
          alone := fun shared => alone_congr (sees.alone shared) rfl rfl }
        refine .inr ⟨scan, afterSees, ?_⟩
        cases doing : state.activity with
        | idle => exact ⟨trivial, trivial⟩
        | parsing stage =>
            rw [doing] at placed prospect
            exact ⟨placed, prospect⟩
        | parsed command =>
            rw [doing] at placed prospect
            exact ⟨⟨placed.found, placed.inside⟩, prospect⟩
        | ready command more =>
            rw [doing] at placed prospect
            exact ⟨placed, prospect⟩
    | _ => exact (known.elim id id).elim

theorem OnTrack.returning (track : OnTrack config state) : Returning config state := by
  rw [Returning, (reader_spins config).finishes_iff]
  intro labels reached known ran
  have later : OnTrack config reached :=
    run_invariant_among (fun state label member next track stepped =>
      track.step (known label member) stepped) track ran
  exact ⟨not_onTrack_starving later, later.enabled⟩

/-! ## Bytes that are not -/

/-- The transactions that wait are executed, so that a buffer that only they refer to is freed. -/
theorem frees {address : Nat} {buffer : QueryBuffer} (counted : Counted state)
    (left : state.readBuf ≠ address) (found : state.buffers address = some buffer)
    (waited : buffer.refcount ≠ 0) :
    ∃ labels freed, (∀ label ∈ labels, Action.Elsewhere label) ∧
      run (step config) state labels = some freed ∧ freed.blocks buffer.data = none ∧
      freed.activity = state.activity ∧ freed.locked = state.locked := by
  obtain ⟨data, size, refcount⟩ := buffer
  induction refcount generalizing state with
  | zero => exact absurd rfl waited
  | succ refcount inductionHypothesis =>
      have count : refcount + 1 = state.references address := counted.refcount address _ found
      rw [State.references, if_neg fun own => left own.2] at count
      have some_ : 0 < state.pending.countP fun queued => decide (queued.readBuf = address) := by
        omega
      obtain ⟨queued, member, refers⟩ := List.countP_pos_iff.mp some_
      obtain ⟨index, indexed⟩ := List.getElem?_of_mem member
      obtain rfl := of_decide_eq_true refers
      have executes : execute state index =
          releaseBuffer { state with pending := state.pending.eraseIdx index } queued.readBuf := by
        rw [execute, indexed]
        rfl
      rw [releaseBuffer, show ({ state with pending := state.pending.eraseIdx index } :
        State).buffers queued.readBuf = some ⟨data, size, refcount + 1⟩ from found] at executes
      cases refcount with
      | zero =>
          refine ⟨[.execute index], _, ?_, run_cons_eq_some.mpr ⟨_, executes, rfl⟩, ?_, rfl, rfl⟩
          · intro label member
            obtain rfl := List.mem_singleton.mp member
            trivial
          · exact Function.update_self ..
      | succ refcount =>
          obtain ⟨labels, freed, foreign, ran, block, activity, locked⟩ := inductionHypothesis
            (execute_counted counted executes) left (Function.update_self ..)
            (Nat.succ_ne_zero refcount)
          refine ⟨.execute index :: labels, freed, ?_, run_cons_eq_some.mpr ⟨_, executes, ran⟩,
            block, activity, locked⟩
          intro label member
          rcases List.mem_cons.mp member with rfl | later
          · trivial
          · exact foreign label later

/-- A command whose buffer is full is refilled into another buffer while a transaction refers to the
first one, and is still used once that is freed. -/
theorem not_returning_freed (sees : Sees state scan) (parsed : state.activity = .parsed command)
    (names : Names state command scan) (waits : ¬ Alone state)
    (ended : scan.position = scan.held.length) (full : scan.held.length = scan.capacity)
    (checked : checkEnd config state = some next) : ¬ Returning config next := by
  intro returning
  have counted := checkEnd_counted sees.counted sees.connected checked
  obtain ⟨buffer, content, current, allocated, capacity, -⟩ := sees.memory
  obtain ⟨_, _, again, againCurrent, ways⟩ := checkEnd_eq checked
  rw [parsed] at again
  cases again
  rw [current] at againCurrent
  cases againCurrent
  rcases ways with ⟨left, -⟩ | ⟨-, room, -⟩ | ⟨-, -, read, count, ⟨refills⟩, rfl⟩
  · rw [sees.size, sees.position, ended] at left
    exact left rfl
  · rw [sees.size, full, capacity] at room
    exact room rfl
  · obtain ⟨fresh, fill, refreshed, fillCurrent, filled⟩ := refills
    obtain ⟨own, ownCurrent, ⟨single, -⟩ | ⟨several, rfl⟩⟩ := refreshBuffer_eq refreshed
    · rw [current] at ownCurrent
      cases ownCurrent
      exact waits (sees.counted.alone sees.connected current single)
    · rw [current] at ownCurrent
      cases ownCurrent
      have framed := readFromSocket_framed filled
      have moved : read.readBuf = state.nextAddress := framed.readBuf
      have before : state.readBuf ≠ state.nextAddress := by
        intro same
        rw [State.current, same, (sees.counted.fresh _ (Nat.le_refl _)).2] at current
        cases current
      have kept : read.buffers state.readBuf =
          some { buffer with refcount := buffer.refcount - 1 } := by
        rw [framed.buffers]
        change (State.setBuffer _ state.nextAddress _).buffers state.readBuf = _
        rw [buffers_setBuffer, if_neg before]
        exact Function.update_self ..
      obtain ⟨_, located, block, -⟩ := names.found
      rw [current] at located
      cases located
      have unlocked : step config { read with
            activity := .ready command count.isSome, position := 0, size := count.getD 0 }
          (.lock false) = some { read with
            activity := .ready command count.isSome, position := 0, size := count.getD 0
            locked := false } := rfl
      have unlockedCounted : Counted { read with
          activity := .ready command count.isSome, position := 0, size := count.getD 0
          locked := false } := { counted with }
      obtain ⟨labels, freed, foreign, ran, gone, activity, locked⟩ := @frees config _ _ _
        unlockedCounted (fun same => before (same.symm.trans moved)) kept
        (Nat.sub_ne_zero_of_lt several)
      have later := (reader_spins config).finishes_run (fun label member => by
        rcases List.mem_cons.mp member with rfl | later
        · exact .inr trivial
        · exact .inr (foreign label later)) returning (run_cons_eq_some.mpr ⟨_, unlocked, ran⟩)
      have unread : freed.read command.name = none := by
        rw [State.read, block, gone]
        rfl
      cases later with
      | done idle =>
          rw [activity] at idle
          cases idle
      | goesOn enabled _ =>
          obtain ⟨action, next, reading, stepped⟩ := enabled [] freed (by simp) rfl
          obtain ⟨allocated, -, delivered⟩ := steps_ready activity reading stepped
          obtain ⟨_, _, ready, delivers⟩ := deliver_eq delivered
          rw [activity] at ready
          cases ready
          cases delivers with
          | locked closed =>
              rw [locked] at closed
              cases closed
          | unknown _ named | handed _ named =>
              rw [unread] at named
              cases named

/-- What returns is read to its end. -/
theorem Sees.prospect (sees : Sees state scan) (placed : Placed state scan state.activity)
    (waits : scan.shared = true → ¬ Alone state) (returning : Returning config state) :
    Prospect config.known state scan state.activity := by
  induction returning generalizing scan with
  | @done state idle =>
      rw [idle]
      trivial
  | @goesOn state enabled later inductionHypothesis =>
      cases doing : state.activity with
      | idle => trivial
      | parsing stage =>
          rw [doing] at placed
          obtain ⟨action, next, reading, stepped⟩ := enabled [] state (by simp) rfl
          obtain ⟨moved, rfl, took⟩ := steps_parsing doing reading stepped
          obtain ⟨-, after, afterSees, shared, afterPlaced, same⟩ := sees.parses doing placed took
          obtain ⟨pending, readBuf⟩ := take_transactions took
          apply same.mpr
          refine inductionHypothesis [] state (.take moved) next (by simp) rfl trivial stepped
            afterSees afterPlaced fun known alone => ?_
          exact waits (shared ▸ known) (alone_congr alone pending.symm readBuf.symm)
      | parsed command =>
          rw [doing] at placed
          obtain ⟨next, checked⟩ : ∃ next, checkEnd config state = some next :=
            sees.checkEnd_isSome doing
          have stepped : step config state .checkEnd = some next :=
            (if_pos sees.connected).trans checked
          have own : scan.shared = true → scan.position = scan.held.length →
              scan.held.length ≠ scan.capacity := by
            intro shared ended full
            exact not_returning_freed sees doing placed (waits shared) ended full checked
              (later [] state .checkEnd next (by simp) rfl trivial stepped)
          obtain ⟨after, more, ready, afterSees, shared, located, same, pending, readBuf⟩ :=
            sees.ends doing placed own checked
          apply same.mpr
          have behind := inductionHypothesis [] state .checkEnd next (by simp) rfl trivial stepped
            afterSees (by rw [ready]; exact located) fun known alone =>
              waits (shared ▸ known) (alone_congr alone pending.symm readBuf.symm)
          rw [ready] at behind
          exact behind
      | ready command more =>
          rw [doing] at placed
          rintro rfl name named
          have unlocked : step config state (.lock false) = some { state with locked := false } :=
            rfl
          have unlockedSees : Sees { state with locked := false } scan := { sees with
            counted := { sees.counted with }
            alone := fun shared => alone_congr (sees.alone shared) rfl rfl }
          obtain ⟨next, delivered⟩ : ∃ next,
              deliver config { state with locked := false } true = some next :=
            unlockedSees.deliver_isSome doing placed true
          have stepped : step config { state with locked := false } (.deliver true) = some next :=
            (if_pos sees.connected).trans delivered
          have unlockedDoing : ({ state with locked := false } : State).activity =
              .ready command true := doing
          have waitsOn : (scan.hand config.known name).shared = true → ¬ Alone next :=
            deliver_waits unlockedDoing rfl named
              (fun shared alone => waits shared (alone_congr alone rfl rfl)) delivered
          rcases unlockedSees.delivers doing placed delivered with
            ⟨-, ended | refused⟩ | ⟨-, parsing, _, again, afterSees⟩
          · cases ended
          · cases refused
          · obtain rfl := Option.some.inj (named.symm.trans again)
            have behind := inductionHypothesis [.lock false] _ (.deliver true) next (by
                intro label member
                obtain rfl := List.mem_singleton.mp member
                trivial) (run_cons_eq_some.mpr ⟨_, unlocked, rfl⟩) trivial stepped afterSees
              (by rw [parsing]; exact Within.nil) waitsOn
            rw [parsing] at behind
            exact behind

/-! ## A client with TLS -/

/-- The buffer of a client with TLS is full of what it sent. -/
structure Filled (state : State) : Prop where
  secure : state.ssl = true
  full : ∀ buffer, state.current = some buffer → state.size = buffer.size
  unbroken : Unbroken state.socket

/-- `read_command` goes on. -/
def Activity.GoesOn : Activity → Prop
  | .idle => False
  | .ready _ more => more = true
  | .parsing _ | .parsed _ => True

/-- A read of a client with TLS gets all bytes. -/
theorem readFromSocket_secure {offset nbytes : Nat} {count : Option Nat}
    (secure : state.ssl = true) (unbroken : Unbroken state.socket)
    (read : readFromSocket state offset nbytes = some (next, count)) :
    count = some nbytes ∧ Unbroken next.socket := by
  obtain ⟨succeeded, left⟩ := unbroken.read nbytes
  have enough := readSegments_le state.socket nbytes
  obtain ⟨buffer, current, found⟩ := Option.bind_eq_some_iff.mp read
  obtain ⟨content, allocated, found⟩ := Option.bind_eq_some_iff.mp found
  have calm := (Option.ite_none_left_eq_some.mp found).1
  rw [secure, Bool.true_and, Reading.polls, succeeded, Bool.true_and, decide_eq_true_iff] at calm
  obtain ⟨_, _, _, _, rfl, counts⟩ := readFromSocket_eq read
  rw [if_pos succeeded, Nat.le_antisymm enough (Nat.le_of_not_lt calm)] at counts
  exact ⟨counts, left⟩

theorem Filled.takes {n : Nat} {moved : Bool} {offset : Option Nat} (filled : Filled state)
    (taken : takeNBytes config state n moved = some (next, offset)) : Filled next := by
  rcases takeNBytes_eq taken with ⟨_, rfl, _⟩ | ⟨missing, read, count, ⟨reads⟩, ended⟩
  · exact ⟨filled.secure, filled.full, filled.unbroken⟩
  · have size := filled.full reads.buffer reads.current
    have socket := reads.grown_socket
    have secure := reads.undisturbed.ssl.trans filled.secure
    have undisturbed := readFromSocket_undisturbed reads.filled
    obtain ⟨counts, left⟩ := readFromSocket_secure (undisturbed.ssl.symm.trans secure)
      (by rw [socket]; exact filled.unbroken) reads.filled
    rcases reads.room with ⟨_, grew⟩ | ⟨enough, _⟩
    · rcases ended with ⟨nothing, _, _⟩ | ⟨_, _, rfl⟩
      · rw [counts] at nothing
        exact absurd nothing (Nat.sub_ne_zero_of_lt missing)
      · refine ⟨secure, fun buffer current => ?_, left⟩
        have framed := readFromSocket_framed reads.filled
        have grown : reads.grown.current = some buffer := by
          rw [State.current, ← framed.buffers, ← framed.readBuf]
          exact current
        have sized : buffer.size = state.size + (n - (state.size - state.position)) := by
          obtain ⟨_, _, _, _, ⟨_, same⟩ | ⟨_, same⟩⟩ := growBuffer_eq grew
          · rw [same, State.current] at grown
            have stored := (Function.update_self ..).symm.trans grown
            rw [← Option.some.inj stored]
          · rw [same, State.current] at grown
            have stored := (Function.update_self ..).symm.trans grown
            rw [← Option.some.inj stored]
        rw [sized]
        exact congrArg (· + _) reads.undisturbed.size
    · omega

theorem Filled.continues {parsed : Parsed} (filled : Filled state)
    (continues : Continues state parsed next) : Filled next ∧ next.activity.GoesOn := by
  cases continues with
  | more later => exact ⟨⟨filled.secure, filled.full, filled.unbroken⟩, trivial⟩
  | failed => exact ⟨⟨filled.secure, filled.full, filled.unbroken⟩, trivial⟩
  | command inline ended resolved =>
      rename_i name args terminated
      have kept : Filled terminated := by
        split at ended
        · obtain ⟨framed, undisturbed⟩ := terminateStrings_framed ended
          refine ⟨undisturbed.ssl.trans filled.secure, fun buffer current => ?_, ?_⟩
          · rw [undisturbed.size]
            apply filled.full
            rw [State.current, ← framed.buffers, ← framed.readBuf]
            exact current
          · rw [terminateStrings_socket ended]
            exact filled.unbroken
        · cases ended
          exact filled
      obtain ⟨_, _, resolved⟩ := Option.bind_eq_some_iff.mp resolved
      obtain ⟨_, _, resolved⟩ := Option.bind_eq_some_iff.mp resolved
      cases resolved
      exact ⟨⟨kept.secure, kept.full, kept.unbroken⟩, trivial⟩

/-- A refill of a client with TLS gets a whole buffer. -/
theorem Refills.secure {read : State} {count : Option Nat}
    (refills : Refills config state read count) (secure : state.ssl = true)
    (unbroken : Unbroken state.socket) :
    count = some refills.buffer.size ∧ read.current = some refills.buffer ∧ read.ssl = true ∧
      Unbroken read.socket := by
  have socket : refills.fresh.socket = state.socket := by
    obtain ⟨_, _, ⟨_, same⟩ | ⟨_, same⟩⟩ := refreshBuffer_eq refills.refreshed
    · rw [same]
    · rw [same]
      rfl
  have fresh := (refreshBuffer_undisturbed refills.refreshed).ssl.trans secure
  have framed := readFromSocket_framed refills.filled
  obtain ⟨counts, left⟩ := readFromSocket_secure fresh (by rw [socket]; exact unbroken)
    refills.filled
  refine ⟨counts, ?_, refills.undisturbed.ssl.trans secure, left⟩
  rw [State.current, framed.buffers, framed.readBuf]
  exact refills.current

theorem Filled.checks (filled : Filled state) (checked : checkEnd config state = some next) :
    Filled next ∧ next.activity.GoesOn := by
  obtain ⟨command, buffer, _, current, ⟨_, rfl⟩ | ⟨_, room, _⟩ |
    ⟨_, _, read, count, ⟨refills⟩, rfl⟩⟩ := checkEnd_eq checked
  · exact ⟨⟨filled.secure, filled.full, filled.unbroken⟩, rfl⟩
  · exact absurd (filled.full buffer current) room
  · obtain ⟨counts, readCurrent, secure, left⟩ := refills.secure filled.secure filled.unbroken
    refine ⟨⟨secure, fun other found => ?_, left⟩, congrArg Option.isSome counts⟩
    rw [show read.current = some other from found] at readCurrent
    cases readCurrent
    exact congrArg (Option.getD · 0) counts

/-- A client with TLS waits for its buffer to be full, or for the bytes of a command. -/
theorem Filled.not_returning (filled : Filled state) (goesOn : state.activity.GoesOn) :
    ¬ Returning config state := by
  intro returning
  induction returning with
  | @done state idle =>
      rw [idle] at goesOn
      exact goesOn
  | @goesOn state enabled later inductionHypothesis =>
      -- A locked client has nothing executed, and none of its commands is refused.
      have locks : run (step config) state [.lock true] = some { state with locked := true } := rfl
      have foreign : ∀ label ∈ [Action.lock true], label.Elsewhere := by
        intro label member
        obtain rfl := List.mem_singleton.mp member
        trivial
      obtain ⟨action, next, reading, stepped⟩ := enabled _ _ foreign locks
      have behind : Filled next ∧ next.activity.GoesOn := by
        have lockedFilled : Filled { state with locked := true } :=
          ⟨filled.secure, filled.full, filled.unbroken⟩
        cases action with
        | take moved =>
            obtain ⟨stage, taken, offset, _, _, _, bytes, _, _, continues⟩ :=
              take_eq (Option.ite_none_right_eq_some.mp stepped).2
            exact (lockedFilled.takes bytes).continues continues
        | checkEnd => exact lockedFilled.checks (Option.ite_none_right_eq_some.mp stepped).2
        | deliver allocated =>
            obtain ⟨command, more, ready, delivers⟩ :=
              deliver_eq (Option.ite_none_right_eq_some.mp stepped).2
            rw [show state.activity = .ready command more from ready] at goesOn
            cases delivers with
            | locked =>
                obtain rfl : more = true := goesOn
                exact ⟨⟨filled.secure, filled.full, filled.unbroken⟩, trivial⟩
            | unknown unlocked | handed unlocked => cases unlocked
        | _ => exact reading.elim
      exact inductionHypothesis _ _ action next foreign locks reading stepped behind.1 behind.2

/-! ## The call -/

/-- The size of the buffer that `read_command` reads into first. -/
def State.opening (state : State) : Nat :=
  match state.current with
  | none => 0
  | some buffer => if 1 < buffer.refcount then respBufSize else buffer.size

/-- These bytes were delivered to a client that nothing reads yet, and nothing more for now. -/
structure Waits (state : State) (bytes : Bytes) : Prop where
  idle : state.activity = .idle
  connected : state.connected = true
  counted : Counted state
  sized : ∀ buffer, state.current = some buffer → 0 < buffer.size
  socket : state.socket = [⟨bytes, false⟩]

/-- `read_command` returns after finitely many steps, whatever other threads do between them. -/
def ReadCommandReturns (config : Config) (state : State) : Prop :=
  ∃ started, step config state .start = some started ∧ Returning config started

variable {bytes : Bytes}

/-- The buffer that `read_command` begins with is its own. -/
theorem Waits.refreshes (waits : Waits state bytes) :
    ∃ fresh buffer content, refreshBuffer config state = some fresh ∧
      fresh.current = some buffer ∧ fresh.blocks buffer.data = some content ∧
      buffer.size = state.opening ∧ 0 < buffer.size ∧ Counted fresh ∧ Alone fresh ∧
      Undisturbed state fresh ∧ fresh.socket = state.socket := by
  obtain ⟨before, current⟩ := waits.counted.current waits.connected
  obtain ⟨fresh, refreshed⟩ : ∃ fresh, refreshBuffer config state = some fresh := by
    rw [refreshBuffer, current]
    simp only [Option.bind_eq_bind, Option.bind_some]
    split <;> exact ⟨_, rfl⟩
  have counted := refreshBuffer_counted waits.counted waits.connected refreshed
  have undisturbed := refreshBuffer_undisturbed refreshed
  have connected := undisturbed.connected.trans waits.connected
  obtain ⟨buffer, found, opening, sized, single, socket⟩ : ∃ buffer, fresh.current = some buffer ∧
      buffer.size = state.opening ∧ 0 < buffer.size ∧ buffer.refcount ≤ 1 ∧
      fresh.socket = state.socket := by
    obtain ⟨own, ownCurrent, ⟨single, rfl⟩ | ⟨several, rfl⟩⟩ := refreshBuffer_eq refreshed
    · refine ⟨own, ownCurrent, ?_, waits.sized own ownCurrent, single, rfl⟩
      rw [State.opening, ownCurrent]
      exact (if_neg (Nat.not_lt_of_le single)).symm
    · refine ⟨_, Function.update_self .., ?_, Nat.zero_lt_succ 4095, Nat.le_refl 1, rfl⟩
      rw [State.opening, ownCurrent]
      exact (if_pos several).symm
  obtain ⟨content, allocated⟩ := Option.ne_none_iff_exists'.mp (counted.data _ buffer found)
  exact ⟨fresh, buffer, content, refreshed, found, allocated, opening, sized, counted,
    counted.alone connected found single, undisturbed, socket⟩

/-- Without TLS, what was delivered is read to its end, or there is nothing. -/
theorem Waits.plain (waits : Waits state bytes) (plain : state.ssl = false) :
    ReadCommandReturns config state ↔
      bytes = [] ∨ Returns config.known .type (Scan.first state.opening bytes) := by
  obtain ⟨fresh, buffer, content, refreshed, current, allocated, opening, sized, counted, alone,
    undisturbed, socket⟩ : ∃ fresh buffer content, refreshBuffer config state = some fresh ∧ _ :=
    waits.refreshes
  obtain ⟨⟨read, count⟩, filled⟩ := readFromSocket_isSome (undisturbed.ssl.trans plain) current
    allocated 0 buffer.size
  have gives : Gives fresh.socket bytes := by
    rw [socket, waits.socket]
    exact .inl rfl
  obtain ⟨_, _, left, again, allocatedAgain, givesLeft, same, counts⟩ := gives.read filled
  rw [current] at again
  cases again
  rw [allocated] at allocatedAgain
  cases allocatedAgain
  have framed := readFromSocket_framed filled
  have begins : step config state .start = some (if (bytes.take buffer.size).length = 0
      then { read with closing := true }
      else { read with
        activity := .parsing .type, position := 0, size := (bytes.take buffer.size).length }) := by
    rw [step, if_pos waits.connected, start, waits.idle]
    rw [counts] at filled
    simp only [refreshed, current, filled, Option.bind_eq_bind, Option.bind_some]
    cases (bytes.take buffer.size).length <;> rfl
  rw [ReadCommandReturns, begins]
  by_cases nothing : bytes = []
  · have idle : read.activity = .idle := by
      rw [same]
      exact undisturbed.activity.trans waits.idle
    refine iff_of_true ⟨_, rfl, .done ?_⟩ (.inl nothing)
    rw [nothing, List.take_nil]
    exact idle
  · have some_ : (bytes.take buffer.size).length ≠ 0 := by
      have positive := List.length_pos_of_ne_nil nothing
      rw [List.length_take]
      omega
    have sees : Sees { read with
        activity := .parsing .type, position := 0, size := (bytes.take buffer.size).length }
        (Scan.first buffer.size bytes) := by
      subst same
      exact {
        counted := { framed.counted counted with }
        connected := undisturbed.connected.trans waits.connected
        plain := undisturbed.ssl.trans plain
        memory := ⟨buffer, _, current, Function.update_self .., rfl, readRange_written ..⟩
        size := rfl
        position := rfl
        ordered := Nat.zero_le _
        inside := by
          change (bytes.take buffer.size).length ≤ buffer.size
          rw [List.length_take]
          exact Nat.min_le_left _ _
        socket := givesLeft
        full := fun more => by
          change (bytes.take buffer.size).length = buffer.size
          rw [List.length_take, Nat.min_eq_left]
          by_contra short
          exact more (List.drop_of_length_le (Nat.le_of_not_le short))
        alone := fun _ => alone_congr alone rfl rfl }
    rw [if_neg some_, opening.symm]
    constructor
    · rintro ⟨_, started, returning⟩
      cases started
      exact .inr (sees.prospect Within.nil (fun shared => Bool.noConfusion shared) returning)
    · rintro (empty | returns)
      · exact absurd empty nothing
      · exact ⟨_, rfl, (show OnTrack config _ from
          .inr ⟨_, sees, Within.nil, returns⟩).returning⟩

/-- With TLS, the first read waits for a whole buffer, and then the parsers do for more. -/
theorem Waits.secure (waits : Waits state bytes) (secure : state.ssl = true) :
    ¬ ReadCommandReturns config state := by
  rintro ⟨started, begins, returning⟩
  have unbroken : Unbroken state.socket := by
    rw [waits.socket]
    intro segment member
    rw [List.mem_singleton.mp member]
  obtain ⟨_, read, count, ⟨refills⟩, rfl⟩ :=
    start_eq (Option.ite_none_right_eq_some.mp begins).2
  obtain ⟨counts, current, secure, left⟩ := refills.secure secure unbroken
  obtain ⟨fresh, buffer, _, refreshed, found, -, -, sized, -⟩ : ∃ fresh buffer content,
      refreshBuffer config state = some fresh ∧ _ := waits.refreshes
  rw [refills.refreshed] at refreshed
  cases refreshed
  rw [refills.current] at found
  cases found
  obtain ⟨size, whole⟩ := Nat.exists_eq_succ_of_ne_zero (Nat.ne_of_gt sized)
  rw [counts, whole] at returning
  have filled : Filled { read with activity := .parsing .type, position := 0, size := size + 1 } := by
    refine ⟨secure, fun other same => ?_, left⟩
    rw [show read.current = some other from same] at current
    cases current
    exact whole.symm
  exact filled.not_returning trivial returning

end Runs

end TellyDB.Server.Reader
