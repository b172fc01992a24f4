import TellyDB.Server.Reader.Buffer

/-!
Owns what a step of the reader can do, said once for each action, and the
reference counts in every step.
-/

namespace TellyDB.Server.Reader

open Resp

section Steps

variable {config : Config} {state next : State}

/-- A refill of the buffer of the client, from its first byte on. -/
structure Refills (config : Config) (state read : State) (count : Option Nat) where
  fresh : State
  buffer : QueryBuffer
  refreshed : refreshBuffer config state = some fresh
  current : fresh.current = some buffer
  filled : readFromSocket fresh 0 buffer.size = some (read, count)

theorem start_eq (started : start config state = some next) :
    state.activity = .idle ∧ ∃ read count, Nonempty (Refills config state read count) ∧
      next = match count with
        | none => read
        | some 0 => { read with closing := true }
        | some size => { read with activity := .parsing .type, position := 0, size := size } := by
  rw [start] at started
  split at started
  · rename_i idle
    rcases Option.bind_eq_some_iff.mp started with ⟨fresh, refreshed, started⟩
    rcases Option.bind_eq_some_iff.mp started with ⟨buffer, current, started⟩
    rcases Option.bind_eq_some_iff.mp started with ⟨⟨read, count⟩, filled, started⟩
    refine ⟨idle, read, count, ⟨⟨fresh, buffer, refreshed, current, filled⟩⟩, ?_⟩
    rcases count with _ | _ | count <;> cases started <;> rfl
  · cases started

theorem checkEnd_eq (checked : checkEnd config state = some next) :
    ∃ command buffer, state.activity = .parsed command ∧ state.current = some buffer ∧
      ((state.size ≠ state.position ∧ next = { state with activity := .ready command true }) ∨
        (state.size = state.position ∧ state.size ≠ buffer.size ∧
          next = { state with activity := .ready command false }) ∨
        (state.size = state.position ∧ state.size = buffer.size ∧
          ∃ read count, Nonempty (Refills config state read count) ∧
            next = { read with
              activity := .ready command count.isSome, position := 0, size := count.getD 0 })) := by
  rw [checkEnd] at checked
  split at checked
  · rename_i command parsed
    rcases Option.bind_eq_some_iff.mp checked with ⟨buffer, current, checked⟩
    refine ⟨command, buffer, parsed, current, ?_⟩
    split at checked
    · rename_i ended
      split at checked
      · rename_i short
        cases checked
        exact .inr (.inl ⟨ended, short, rfl⟩)
      · rename_i full
        rcases Option.bind_eq_some_iff.mp checked with ⟨fresh, refreshed, checked⟩
        rcases Option.bind_eq_some_iff.mp checked with ⟨freshBuffer, freshCurrent, checked⟩
        rcases Option.bind_eq_some_iff.mp checked with ⟨⟨read, count⟩, filled, checked⟩
        cases checked
        exact .inr (.inr ⟨ended, not_not.mp full, read, count,
          ⟨⟨fresh, freshBuffer, refreshed, freshCurrent, filled⟩⟩, rfl⟩)
    · rename_i more
      cases checked
      exact .inl ⟨more, rfl⟩
  · cases checked

/-- What `take_n_bytes` does when the bytes are not all there: the buffer has room,
and the socket is read. -/
structure Reads (config : Config) (state : State) (n : Nat) (moved : Bool) (read : State)
    (count : Option Nat) where
  buffer : QueryBuffer
  grown : State
  current : state.current = some buffer
  bounded : state.size + (n - (state.size - state.position)) ≤ int32Max
  room : (buffer.size < state.size + (n - (state.size - state.position)) ∧
      growBuffer config state (state.size + (n - (state.size - state.position))) moved =
        some grown) ∨
    (state.size + (n - (state.size - state.position)) ≤ buffer.size ∧ grown = state)
  filled : readFromSocket grown (state.position + (state.size - state.position))
    (n - (state.size - state.position)) = some (read, count)

theorem takeNBytes_eq {n : Nat} {moved : Bool} {offset : Option Nat}
    (taken : takeNBytes config state n moved = some (next, offset)) :
    (n ≤ state.size - state.position ∧ next = { state with position := state.position + n } ∧
        offset = some state.position) ∨
      (state.size - state.position < n ∧ ∃ read count,
        Nonempty (Reads config state n moved read count) ∧
        ((count.getD 0 = 0 ∧ next = read ∧ offset = none) ∨
          (count.getD 0 ≠ 0 ∧ offset = some state.position ∧
            next = { read with
              size := read.size + (n - (state.size - state.position))
              position := state.position + n }))) := by
  have counts : ∀ (read : State) (count : Option Nat),
      (if count.getD 0 = 0 then some (read, none)
        else some ({ read with
          size := read.size + (n - (state.size - state.position))
          position := state.position + n }, some state.position)) = some (next, offset) →
      (count.getD 0 = 0 ∧ next = read ∧ offset = none) ∨
        (count.getD 0 ≠ 0 ∧ offset = some state.position ∧
          next = { read with
            size := read.size + (n - (state.size - state.position))
            position := state.position + n }) := by
    intro read count taken
    split at taken
    · rename_i nothing
      cases taken
      exact .inl ⟨nothing, rfl, rfl⟩
    · rename_i some_
      cases taken
      exact .inr ⟨some_, rfl, rfl⟩
  rw [takeNBytes] at taken
  dsimp only at taken
  split at taken
  · rename_i there
    cases taken
    exact .inl ⟨there, rfl, rfl⟩
  · rename_i missing
    refine .inr ⟨Nat.lt_of_not_le missing, ?_⟩
    rcases Option.bind_eq_some_iff.mp taken with ⟨buffer, current, taken⟩
    split at taken
    · cases taken
    · rename_i bounded
      split at taken
      · rename_i small
        rcases Option.bind_eq_some_iff.mp taken with ⟨grown, room, taken⟩
        rcases Option.bind_eq_some_iff.mp taken with ⟨⟨read, count⟩, filled, taken⟩
        exact ⟨read, count, ⟨⟨buffer, grown, current, Nat.le_of_not_lt bounded,
          .inl ⟨small, room⟩, filled⟩⟩, counts read count taken⟩
      · rename_i enough
        rcases Option.bind_eq_some_iff.mp taken with ⟨grown, room, taken⟩
        cases room
        rcases Option.bind_eq_some_iff.mp taken with ⟨⟨read, count⟩, filled, taken⟩
        exact ⟨read, count, ⟨⟨buffer, state, current, Nat.le_of_not_lt bounded,
          .inr ⟨Nat.le_of_not_lt enough, rfl⟩, filled⟩⟩, counts read count taken⟩

/-- What a parser made of the bytes it took. -/
inductive Continues (state : State) : Parsed → State → Prop where
  | more (stage : Stage) : Continues state (.more stage) { state with activity := .parsing stage }
  | failed : Continues state .failed { state with activity := .parsing .type }
  | command {name : Range} {args : List Range} {terminated next : State} (inline : Bool)
      (ended : (if inline then terminateStrings state (name :: args) else some state) =
        some terminated)
      (resolved : resolve terminated name args = some next) :
      Continues state (.command name args inline) next

theorem take_eq {moved : Bool} (took : take config state moved = some next) :
    ∃ stage taken offset buffer content, state.activity = .parsing stage ∧
      takeNBytes config state stage.request moved = some (taken, offset) ∧
      taken.current = some buffer ∧ taken.blocks buffer.data = some content ∧
      Continues taken (stage.next (offset.getD taken.position) taken.position taken.size
        (offset.map fun offset => readRange content ⟨offset, stage.request⟩)) next := by
  rw [take] at took
  split at took
  · rename_i stage parsing
    rcases Option.bind_eq_some_iff.mp took with ⟨⟨taken, offset⟩, bytes, took⟩
    rcases Option.bind_eq_some_iff.mp took with ⟨buffer, current, took⟩
    rcases Option.bind_eq_some_iff.mp took with ⟨content, allocated, took⟩
    refine ⟨stage, taken, offset, buffer, content, parsing, bytes, current, allocated, ?_⟩
    dsimp only at took
    split at took
    · rename_i after next_
      rw [next_]
      cases took
      exact .more after
    · rename_i name args inline next_
      rw [next_]
      split at took
      · rename_i terminates
        rcases Option.bind_eq_some_iff.mp took with ⟨terminated, ended, resolved⟩
        exact .command inline ((if_pos terminates).trans ended) resolved
      · rename_i plain
        rcases Option.bind_eq_some_iff.mp took with ⟨terminated, ended, resolved⟩
        exact .command inline ((if_neg plain).trans ended) resolved
    · rename_i next_
      rw [next_]
      cases took
      exact .failed
    · cases took
  · cases took

/-- What a parsed command becomes. -/
inductive Delivers (config : Config) (state : State) (command : Command) (looped : State) :
    Bool → State → Prop where
  | locked {allocated : Bool} (locked : state.locked = true) :
      Delivers config state command looped allocated looped
  | unknown {allocated : Bool} {name : Bytes} (unlocked : state.locked = false)
      (named : state.read command.name = some name) (unknown : config.known name = false) :
      Delivers config state command looped allocated looped
  | handed {allocated : Bool} {name : Bytes} {args : List Bytes} {next : State}
      (unlocked : state.locked = false) (named : state.read command.name = some name)
      (known : config.known name = true) (read : command.args.mapM state.read = some args)
      (added : if allocated then
          addTransaction { looped with handed := state.handed ++ [(name, args)] } command = some next
        else next = { looped with handed := state.handed ++ [(name, args)], activity := .idle }) :
      Delivers config state command looped allocated next

theorem deliver_eq {allocated : Bool} (delivered : deliver config state allocated = some next) :
    ∃ command more, state.activity = .ready command more ∧
      Delivers config state command
        { state with activity := if more then .parsing .type else .idle } allocated next := by
  rw [deliver] at delivered
  split at delivered
  · rename_i command more ready
    refine ⟨command, more, ready, ?_⟩
    dsimp only at delivered
    split at delivered
    · rename_i locked
      cases delivered
      exact .locked locked
    · rename_i unlocked
      have unlocked := Bool.not_eq_true _ ▸ unlocked
      rcases Option.bind_eq_some_iff.mp delivered with ⟨name, named, delivered⟩
      split at delivered
      · rename_i known
        rcases Option.bind_eq_some_iff.mp delivered with ⟨args, read, delivered⟩
        refine .handed unlocked named known read ?_
        split at delivered
        · rename_i accepted
          rw [if_pos accepted]
          exact delivered
        · rename_i refused
          cases delivered
          rw [if_neg refused]
      · rename_i unknown
        cases delivered
        exact .unknown unlocked named (Bool.not_eq_true _ ▸ unknown)
  · cases delivered

theorem Refills.undisturbed {read : State} {count : Option Nat}
    (refills : Refills config state read count) : Undisturbed state read :=
  (refreshBuffer_undisturbed refills.refreshed).trans (readFromSocket_undisturbed refills.filled)

theorem Reads.undisturbed {read : State} {n : Nat} {moved : Bool} {count : Option Nat}
    (reads : Reads config state n moved read count) : Undisturbed state read := by
  have grown : Undisturbed state reads.grown := by
    rcases reads.room with ⟨_, grew⟩ | ⟨_, same⟩
    · exact growBuffer_undisturbed grew
    · rw [same]
      exact ⟨rfl, rfl, rfl, rfl, rfl, rfl, rfl, rfl⟩
  exact grown.trans (readFromSocket_undisturbed reads.filled)

/-- What `read_from_socket` leaves in the socket, and what it finds. -/
theorem readFromSocket_found {offset nbytes : Nat} {count : Option Nat}
    (read : readFromSocket state offset nbytes = some (next, count)) :
    next.socket = (readSegments state.socket nbytes).socket ∧
      count.getD 0 ≤ (readSegments state.socket nbytes).bytes.length := by
  obtain ⟨_, _, _, _, rfl, rfl⟩ := readFromSocket_eq read
  refine ⟨rfl, ?_⟩
  split
  · exact Nat.le_refl _
  · exact Nat.zero_le _

theorem Reads.grown_socket {n : Nat} {moved : Bool} {read : State} {count : Option Nat}
    (reads : Reads config state n moved read count) : reads.grown.socket = state.socket := by
  rcases reads.room with ⟨_, grew⟩ | ⟨_, same⟩
  · obtain ⟨_, _, _, _, ⟨_, same⟩ | ⟨_, same⟩⟩ := growBuffer_eq grew
    · rw [same]
      rfl
    · rw [same]
      rfl
  · rw [same]

theorem Reads.found {n : Nat} {moved : Bool} {read : State} {count : Option Nat}
    (reads : Reads config state n moved read count) :
    read.socket = (readSegments state.socket (n - (state.size - state.position))).socket ∧
      count.getD 0 ≤ (readSegments state.socket (n - (state.size - state.position))).bytes.length := by
  rw [← reads.grown_socket]
  exact readFromSocket_found reads.filled

/-! ## Reference counts -/

/-- The reference counts do not depend on what the I/O thread is doing. -/
theorem Refills.counted {read : State} {count : Option Nat}
    (refills : Refills config state read count) (counted : Counted state)
    (connected : state.connected = true) : Counted read :=
  (readFromSocket_framed refills.filled).counted
    (refreshBuffer_counted counted connected refills.refreshed)

theorem start_counted (counted : Counted state) (connected : state.connected = true)
    (started : start config state = some next) : Counted next := by
  obtain ⟨_, read, count, ⟨refills⟩, rfl⟩ := start_eq started
  have filled := refills.counted counted connected
  rcases count with _ | _ | count
  · exact filled
  · exact { filled with }
  · exact { filled with }

theorem checkEnd_counted (counted : Counted state) (connected : state.connected = true)
    (checked : checkEnd config state = some next) : Counted next := by
  obtain ⟨command, buffer, _, _, ⟨_, rfl⟩ | ⟨_, _, rfl⟩ | ⟨_, _, read, count, ⟨refills⟩, rfl⟩⟩ :=
    checkEnd_eq checked
  · exact { counted with }
  · exact { counted with }
  · have filled := refills.counted counted connected
    exact { filled with }

theorem takeNBytes_counted {n : Nat} {moved : Bool} {offset : Option Nat} (counted : Counted state)
    (taken : takeNBytes config state n moved = some (next, offset)) : Counted next := by
  rcases takeNBytes_eq taken with ⟨_, rfl, _⟩ | ⟨_, read, count, ⟨reads⟩, ended⟩
  · exact { counted with }
  · have grown : Counted reads.grown := by
      rcases reads.room with ⟨_, grew⟩ | ⟨_, same⟩
      · rw [Counted, growBuffer_references grew]
        exact growBuffer_counted counted grew
      · rw [same]
        exact counted
    have filled := (readFromSocket_framed reads.filled).counted grown
    rcases ended with ⟨_, rfl, _⟩ | ⟨_, _, rfl⟩
    · exact filled
    · exact { filled with }

theorem Continues.counted {parsed : Parsed} (continues : Continues state parsed next)
    (counted : Counted state) : Counted next := by
  cases continues with
  | more stage => exact { counted with }
  | failed => exact { counted with }
  | command inline ended resolved =>
      rename_i name args terminated
      have kept : Counted terminated := by
        split at ended
        · exact (terminateStrings_framed ended).1.counted counted
        · cases ended
          exact counted
      rcases Option.bind_eq_some_iff.mp resolved with ⟨buffer, _, resolved⟩
      rcases Option.bind_eq_some_iff.mp resolved with ⟨content, _, resolved⟩
      cases resolved
      exact { kept with }

theorem deliver_counted {allocated : Bool} (counted : Counted state)
    (delivered : deliver config state allocated = some next) : Counted next := by
  obtain ⟨command, more, _, delivers⟩ := deliver_eq delivered
  cases delivers with
  | locked => exact { counted with }
  | unknown => exact { counted with }
  | handed _ _ _ _ added =>
      split at added
      · refine addTransaction_counted ?_ added
        exact { counted with }
      · cases added
        exact { counted with }

theorem connected_counted (socket : List Segment) : Counted (connected config socket) := by
  have buffers : ∀ address, (connected config socket).buffers address =
      if address = 0 then some ⟨0, respBufSize, 1⟩ else none :=
    fun address => Function.update_apply (fun _ => none) 0 _ address
  have blocks : ∀ address, (connected config socket).blocks address =
      if address = 0 then some (config.garbage 0) else none :=
    fun address => Function.update_apply (fun _ => none) 0 _ address
  have references : ∀ address, (connected config socket).references address =
      if address = 0 then 1 else 0 := by
    intro address
    change 0 + (if true = true ∧ 0 = address then 1 else 0) = _
    by_cases own : address = 0
    · rw [if_pos own, if_pos ⟨rfl, own.symm⟩]
    · rw [if_neg own, if_neg fun both => own both.2.symm]
  have only : ∀ address buffer, (connected config socket).buffers address = some buffer →
      address = 0 ∧ buffer = ⟨0, respBufSize, 1⟩ := by
    intro address buffer found
    rw [buffers] at found
    split at found
    · rename_i own
      exact ⟨own, (Option.some.inj found).symm⟩
    · cases found
  exact {
    refcount := fun address buffer found => by
      obtain ⟨rfl, rfl⟩ := only address buffer found
      rw [references, if_pos rfl]
    held := fun address used => by
      rw [references] at used
      split at used
      · rename_i own
        rw [buffers, if_pos own]
        exact Option.some_ne_none _
      · exact absurd rfl used
    data := fun address buffer found => by
      obtain ⟨rfl, rfl⟩ := only address buffer found
      rw [blocks, if_pos rfl]
      exact Option.some_ne_none _
    distinct := fun first second firstBuffer secondBuffer firstFound secondFound _ => by
      rw [(only first firstBuffer firstFound).1, (only second secondBuffer secondFound).1]
    fresh := fun address beyond => by
      have positive : address ≠ 0 := Nat.one_le_iff_ne_zero.mp beyond
      rw [blocks, buffers, if_neg positive, if_neg positive]
      exact ⟨rfl, rfl⟩ }

end Steps

end TellyDB.Server.Reader
