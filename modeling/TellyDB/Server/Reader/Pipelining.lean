import TellyDB.Server.Reader.Steps

/-!
Owns pipelining: the commands that are handed to `add_transaction` are those that
were sent, however the bytes are split into what the reads return, as long as no
read ends inside of the bytes a parser asks for and no command ends where a full
buffer ends with more to read into it.
-/

namespace TellyDB.Server.Reader

open Resp Lib.Transition

/-! ## What has to hold of a step -/

/-- The bytes of the socket. -/
def stream (socket : List Segment) : Bytes := socket.flatMap Segment.bytes

/-- What `take_n_bytes` asks the socket for. -/
def State.missing (state : State) (stage : Stage) : Nat :=
  stage.request - (state.size - state.position)

/-- A read of `read_command` finds bytes. A parser gets all the bytes it asks for, or none of
them at the first byte of a command. A command that ends where a full buffer ends is in a
buffer that others refer to, or nothing is there to read. The client is not locked, and what
it sent is put into the queue. -/
def Patient (state : State) (action : Action) : Prop :=
  match action with
  | .start => (readSegments state.socket 1).bytes ≠ []
  | .take _ =>
      match state.activity with
      | .parsing stage =>
          (readSegments state.socket (state.missing stage)).bytes.length = state.missing stage ∨
            (stage = .type ∧ (readSegments state.socket (state.missing stage)).bytes = [])
      | _ => True
  | .checkEnd =>
      match state.current with
      | some buffer =>
          state.size = state.position → state.size = buffer.size → 1 < buffer.refcount ∨
            (readSegments state.socket buffer.size).bytes = []
      | none => True
  | .deliver allocated => allocated = true ∧ state.locked = false
  | .execute _ | .lock _ | .disconnect => True

instance (state : State) (action : Action) : Decidable (Patient state action) := by
  unfold Patient
  split <;> first | infer_instance | (split <;> infer_instance)

/-! ## Reads -/

theorem readSegments_stream (socket : List Segment) (nbytes : Nat) :
    (readSegments socket nbytes).bytes ++ stream (readSegments socket nbytes).socket =
      stream socket := by
  cases socket with
  | nil => rfl
  | cons segment rest =>
      rw [readSegments]
      split
      · simp only [stream, List.flatMap_cons, ← List.append_assoc, List.take_append_drop]
      · rfl

theorem readSegments_le (socket : List Segment) (nbytes : Nat) :
    (readSegments socket nbytes).bytes.length ≤ nbytes := by
  cases socket with
  | nil => exact Nat.zero_le _
  | cons segment rest =>
      rw [readSegments]
      split
      · exact List.length_take_le ..
      · rename_i short
        exact Nat.le_of_not_le short

/-- No read of the socket fails. -/
def Unbroken (socket : List Segment) : Prop := ∀ segment ∈ socket, segment.failed = false

theorem Unbroken.read {socket : List Segment} (unbroken : Unbroken socket) (nbytes : Nat) :
    (readSegments socket nbytes).succeeded = true ∧
      Unbroken (readSegments socket nbytes).socket := by
  cases socket with
  | nil => exact ⟨rfl, unbroken⟩
  | cons segment rest =>
      have first := unbroken segment (List.mem_cons_self ..)
      have later : Unbroken rest := fun other member =>
        unbroken other (List.mem_cons_of_mem _ member)
      rw [readSegments]
      split
      · refine ⟨rfl, fun other member => ?_⟩
        rcases List.mem_cons.mp member with rfl | inRest
        · exact first
        · exact later other inRest
      · refine ⟨?_, later⟩
        change (!segment.failed) = true
        rw [first, Bool.not_false]

/-! ## Unread bytes -/

/-- The bytes behind `position`, in the buffer and then in the socket, are `input`. -/
structure Streams (state : State) (buffer : QueryBuffer) (content : Nat → UInt8) (input : Bytes) :
    Prop where
  current : state.current = some buffer
  allocated : state.blocks buffer.data = some content
  ordered : state.position ≤ state.size
  bounded : state.size ≤ buffer.size
  unread : readRange content ⟨state.position, state.size - state.position⟩ ++
    stream state.socket = input

section Rules

variable {config : Config} {state next : State}

/-- What `realloc` keeps. -/
theorem growBuffer_content {required : Nat} {moved : Bool} {buffer : QueryBuffer}
    {content : Nat → UInt8} (current : state.current = some buffer)
    (allocated : state.blocks buffer.data = some content)
    (grown : growBuffer config state required moved = some next) :
    ∃ after kept, next.current = some after ∧ next.blocks after.data = some kept ∧
      after.size = required ∧ next.socket = state.socket ∧
      ∀ index < buffer.size, kept index = content index := by
  obtain ⟨other, otherContent, otherCurrent, otherAllocated, ways⟩ := growBuffer_eq grown
  rw [current] at otherCurrent
  cases otherCurrent
  rw [allocated] at otherAllocated
  cases otherAllocated
  rcases ways with ⟨_, rfl⟩ | ⟨_, rfl⟩
  · exact ⟨_, content, Function.update_self .., allocated, rfl, rfl, fun _ _ => rfl⟩
  · refine ⟨_, _, Function.update_self .., Function.update_self .., rfl, rfl, ?_⟩
    intro index inside
    exact if_pos inside

/-- A read behind the bytes of the buffer keeps them, and appends what it found. -/
theorem Reads.streams {n : Nat} {moved : Bool} {read : State} {count : Option Nat}
    {buffer : QueryBuffer} {content : Nat → UInt8} {input : Bytes}
    (reads : Reads config state n moved read count)
    (streams : Streams state buffer content input) (short : state.size - state.position ≤ n) :
    ∃ after kept, read.current = some after ∧ read.blocks after.data = some kept ∧
      state.position + n ≤ after.size ∧
      read.socket = (readSegments state.socket (n - (state.size - state.position))).socket ∧
      (count = if (readSegments state.socket (n - (state.size - state.position))).succeeded then
        some (readSegments state.socket (n - (state.size - state.position))).bytes.length
        else none) ∧
      readRange kept ⟨state.size,
          (readSegments state.socket (n - (state.size - state.position))).bytes.length⟩ =
        (readSegments state.socket (n - (state.size - state.position))).bytes ∧
      ∀ range : Range, range.offset + range.length ≤ state.size →
        readRange kept range = readRange content range := by
  have ordered := streams.ordered
  have bounded := streams.bounded
  obtain ⟨after, kept, current, allocated, room, socket, same⟩ :
      ∃ after kept, reads.grown.current = some after ∧
        reads.grown.blocks after.data = some kept ∧ state.position + n ≤ after.size ∧
        reads.grown.socket = state.socket ∧
        ∀ index < buffer.size, kept index = content index := by
    rcases reads.room with ⟨_, grew⟩ | ⟨enough, same⟩
    · obtain ⟨after, kept, current, allocated, size, socket, same⟩ :=
        growBuffer_content streams.current streams.allocated grew
      exact ⟨after, kept, current, allocated, by omega, socket, same⟩
    · have same_ := reads.current
      rw [streams.current] at same_
      rw [← Option.some.inj same_] at enough
      rw [same]
      exact ⟨buffer, content, streams.current, streams.allocated, by omega, rfl, fun _ _ => rfl⟩
  obtain ⟨other, otherContent, otherCurrent, otherAllocated, filled, counted⟩ :=
    readFromSocket_eq reads.filled
  rw [current] at otherCurrent
  cases otherCurrent
  rw [allocated] at otherAllocated
  cases otherAllocated
  rw [socket] at filled counted
  have ends : state.position + (state.size - state.position) = state.size := by omega
  rw [ends] at filled
  rw [filled]
  refine ⟨after, _, current, Function.update_self .., room, rfl, counted,
    readRange_written .., ?_⟩
  intro range inside
  rw [readRange_before inside]
  apply readRange_congr
  intro index bound
  exact same _ (by omega)

/-- A parser that gets what it asks for gets the next bytes. -/
theorem takeNBytes_streams {n : Nat} {moved : Bool} {offset : Option Nat} {buffer : QueryBuffer}
    {content : Nat → UInt8} {input : Bytes} (streams : Streams state buffer content input)
    (unbroken : Unbroken state.socket)
    (enough : (readSegments state.socket (n - (state.size - state.position))).bytes.length =
      n - (state.size - state.position))
    (taken : takeNBytes config state n moved = some (next, offset)) :
    offset = some state.position ∧ next.position = state.position + n ∧
      ∃ after kept rest, Streams next after kept rest ∧
        readRange kept ⟨state.position, n⟩ ++ rest = input ∧
        ∀ range : Range, range.offset + range.length ≤ state.position →
          readRange kept range = readRange content range := by
  have ordered := streams.ordered
  have bounded := streams.bounded
  rcases takeNBytes_eq taken with ⟨there, rfl, rfl⟩ | ⟨missing, read, count, ⟨reads⟩, ended⟩
  · refine ⟨rfl, rfl, buffer, content,
      readRange content ⟨state.position + n, state.size - (state.position + n)⟩ ++
        stream state.socket,
      ⟨streams.current, streams.allocated, ?_, bounded, rfl⟩, ?_, fun _ _ => rfl⟩
    · change state.position + n ≤ state.size
      omega
    · have split : state.size - state.position = n + (state.size - (state.position + n)) := by
        omega
      rw [← List.append_assoc, ← readRange_append, ← split]
      exact streams.unread
  · obtain ⟨after, kept, current, allocated, room, socket, counted, found, same⟩ :=
      reads.streams streams (Nat.le_of_lt missing)
    have some_ : count.getD 0 ≠ 0 := by
      rw [counted, if_pos (unbroken.read _).1, enough, Option.getD_some]
      omega
    rcases ended with ⟨nothing, _, _⟩ | ⟨_, rfl, rfl⟩
    · exact absurd nothing some_
    · have size := reads.undisturbed.size
      have whole : n = (state.size - state.position) + (n - (state.size - state.position)) := by
        omega
      have ends : state.position + (state.size - state.position) = state.size := by omega
      refine ⟨rfl, rfl, after, kept, stream read.socket,
        ⟨current, allocated, ?_, ?_, ?_⟩, ?_, fun range inside => same range (by omega)⟩
      · change state.position + n ≤ read.size + _
        omega
      · change read.size + _ ≤ after.size
        omega
      · have none : read.size + (n - (state.size - state.position)) - (state.position + n) = 0 := by
          omega
        change readRange kept ⟨state.position + n, read.size + _ - (state.position + n)⟩ ++ _ = _
        rw [none]
        rfl
      · rw [whole, readRange_append, ends, ← enough, found, socket, List.append_assoc,
          readSegments_stream, same _ (Nat.le_of_eq ends)]
        exact streams.unread

/-- A parser that gets nothing leaves everything unread. -/
theorem takeNBytes_nothing {n : Nat} {moved : Bool} {offset : Option Nat} {buffer : QueryBuffer}
    {content : Nat → UInt8} {input : Bytes} (streams : Streams state buffer content input)
    (short : n - (state.size - state.position) ≠ 0)
    (nothing : (readSegments state.socket (n - (state.size - state.position))).bytes = [])
    (taken : takeNBytes config state n moved = some (next, offset)) :
    offset = none ∧ next.position = state.position ∧
      ∃ after kept, Streams next after kept input ∧
        ∀ range : Range, range.offset + range.length ≤ state.position →
          readRange kept range = readRange content range := by
  have ordered := streams.ordered
  have bounded := streams.bounded
  rcases takeNBytes_eq taken with ⟨there, _, _⟩ | ⟨missing, read, count, ⟨reads⟩, ended⟩
  · omega
  · obtain ⟨after, kept, current, allocated, room, socket, counted, _, same⟩ :=
      reads.streams streams (Nat.le_of_lt missing)
    have none_ : count.getD 0 = 0 := by
      rw [counted, nothing]
      split <;> rfl
    rcases ended with ⟨_, rfl, rfl⟩ | ⟨some_, _, _⟩
    · have size := reads.undisturbed.size
      have position := reads.undisturbed.position
      have rest := readSegments_stream state.socket (n - (state.size - state.position))
      rw [nothing, List.nil_append, ← socket] at rest
      refine ⟨rfl, position, after, kept, ⟨current, allocated, ?_, ?_, ?_⟩,
        fun range inside => same range (by omega)⟩
      · omega
      · omega
      · rw [size, position, rest, same _ (by dsimp only; omega)]
        exact streams.unread
    · exact absurd none_ some_

/-- A buffer is refilled from its first byte on. -/
theorem Refills.streams {read : State} {count : Option Nat}
    (refills : Refills config state read count) (unbroken : Unbroken state.socket) :
    ∃ after kept bytes, bytes.length ≤ after.size ∧ read.current = some after ∧
      read.blocks after.data = some kept ∧ count = some bytes.length ∧
      readRange kept ⟨0, bytes.length⟩ = bytes ∧ bytes ++ stream read.socket = stream state.socket ∧
      Unbroken read.socket ∧
      bytes = (readSegments state.socket after.size).bytes := by
  have socket : refills.fresh.socket = state.socket := by
    obtain ⟨_, _, ⟨_, same⟩ | ⟨_, same⟩⟩ := refreshBuffer_eq refills.refreshed
    · rw [same]
    · rw [same]
      rfl
  obtain ⟨buffer, content, current, allocated, filled, counted⟩ := readFromSocket_eq refills.filled
  have own := refills.current
  rw [current] at own
  rw [socket, ← Option.some.inj own] at filled counted
  obtain ⟨succeeded, rest⟩ := unbroken.read buffer.size
  rw [if_pos succeeded] at counted
  rw [filled]
  exact ⟨buffer, _, (readSegments state.socket buffer.size).bytes, readSegments_le .., current,
    Function.update_self .., counted, readRange_written .., readSegments_stream .., rest, rfl⟩

end Rules

/-! ## Progress -/

/-- What a pointer refers to, if it is allocated, is `bytes`. -/
def State.Reads (state : State) (pointer : Pointer) (bytes : Bytes) : Prop :=
  ∀ content, state.blocks pointer.block = some content → readRange content pointer.range = bytes

/-- The command reads as what was sent. -/
structure Command.Reads (command : Command) (state : State) : Prop where
  name : state.Reads command.name command.data.1
  args : List.Forall₂ state.Reads command.args command.data.2

/-- A parser in the middle of a command has its first bytes behind it, and the stages left take
the others. -/
structure Underway (state : State) (content : Nat → UInt8) (stage : Stage)
    (command : CommandData) (bytes : Bytes) where
  start : Nat
  name : Range
  args : List Range
  consumed : Bytes
  ranges : commandRanges start command = name :: args
  begins : start + consumed.length = state.position
  behind : readRange content ⟨start, consumed.length⟩ = consumed
  whole : consumed ++ bytes = encodeCommand command
  feeds : Feeds name args stage state.position bytes

/-- The reader is about to get the commands `rest`. -/
def Progress (state : State) (rest : List CommandData) : Activity → Prop
  | .idle => stream state.socket = rest.flatMap encodeCommand
  | .parsing stage =>
      (stage = .type ∧
        ∃ buffer content, Streams state buffer content (rest.flatMap encodeCommand)) ∨
      ∃ buffer content command others bytes,
        Streams state buffer content (bytes ++ others.flatMap encodeCommand) ∧
          rest = command :: others ∧ Nonempty (Underway state content stage command bytes)
  | .parsed command =>
      ∃ buffer content others, Streams state buffer content (others.flatMap encodeCommand) ∧
        rest = command.data :: others ∧ command.Reads state ∧
        command.name.block = buffer.data ∧ ∀ argument ∈ command.args, argument.block = buffer.data
  | .ready command more =>
      ∃ others, rest = command.data :: others ∧ command.Reads state ∧
        if more then
          ∃ buffer content, Streams state buffer content (others.flatMap encodeCommand)
        else stream state.socket = others.flatMap encodeCommand

/-- The commands with a name that the server knows. -/
def Config.knownCommands (config : Config) (commands : List CommandData) : List CommandData :=
  commands.filter fun command => config.known command.1

theorem knownCommands_append (config : Config) (done : List CommandData) (command : CommandData) :
    config.knownCommands (done ++ [command]) =
      if config.known command.1 then config.knownCommands done ++ [command]
      else config.knownCommands done := by
  split
  · rename_i known
    simp [Config.knownCommands, known]
  · rename_i unknown
    simp [Config.knownCommands, unknown]

/-- What was handed over are the known ones of the first commands, and the reader is about to
get the others. -/
structure Follows (config : Config) (commands : List CommandData) (state : State) : Prop where
  counted : Counted state
  unbroken : Unbroken state.socket
  progress : ∃ done rest, commands = done ++ rest ∧
    state.handed = config.knownCommands done ∧
    (state.connected = true → Progress state rest state.activity)

section Steps

variable {config : Config} {state next : State} {commands : List CommandData}

theorem start_follows (follows : Follows config commands state)
    (connected : state.connected = true) (started : start config state = some next) :
    Follows config commands next := by
  have counted := start_counted follows.counted connected started
  obtain ⟨done, rest, sent, handed, progress⟩ := follows.progress
  obtain ⟨idle, read, count, ⟨refills⟩, rfl⟩ := start_eq started
  obtain ⟨after, kept, bytes, bounded, current, allocated, rfl, found, unread, unbroken, _⟩ :=
    refills.streams follows.unbroken
  have progress := progress connected
  rw [idle] at progress
  have progress : stream state.socket = rest.flatMap encodeCommand := progress
  have undisturbed := refills.undisturbed
  have handedRead := undisturbed.handed.trans handed
  cases bytes with
  | nil =>
      refine ⟨counted, unbroken, done, rest, sent, handedRead, fun _ => ?_⟩
      change Progress _ rest read.activity
      rw [undisturbed.activity, idle]
      exact unread.trans progress
  | cons byte bytes =>
      refine ⟨counted, unbroken, done, rest, sent, handedRead, fun _ => .inl ⟨rfl, after, kept, ?_⟩⟩
      refine ⟨current, allocated, Nat.zero_le _, bounded, ?_⟩
      change readRange kept ⟨0, (byte :: bytes).length - 0⟩ ++ stream read.socket = _
      rw [Nat.sub_zero, found, unread, progress]

/-- Taking bytes hands nothing over. -/
theorem takeNBytes_handed {n : Nat} {moved : Bool} {offset : Option Nat}
    (taken : takeNBytes config state n moved = some (next, offset))
    (unbroken : Unbroken state.socket) :
    next.handed = state.handed ∧ Unbroken next.socket := by
  rcases takeNBytes_eq taken with ⟨_, rfl, _⟩ | ⟨_, read, count, ⟨reads⟩, ended⟩
  · exact ⟨rfl, unbroken⟩
  · have rest : Unbroken read.socket := by
      rw [reads.found.1]
      exact (unbroken.read _).2
    rcases ended with ⟨_, rfl, _⟩ | ⟨_, _, rfl⟩
    · exact ⟨reads.undisturbed.handed, rest⟩
    · exact ⟨reads.undisturbed.handed, rest⟩

theorem encodeCommand_ne_nil (command : CommandData) : encodeCommand command ≠ [] :=
  List.cons_ne_nil _ _

/-- A parser at the first byte of a command. -/
theorem underway_type {content : Nat → UInt8} {command : CommandData} (fits : command.Fits) :
    Nonempty (Underway state content .type command (encodeCommand command)) := by
  cases ranges : commandRanges state.position command with
  | nil => cases ranges
  | cons name args =>
      exact ⟨⟨state.position, name, args, [], ranges, rfl, rfl, rfl,
        feeds_command fits state.position ranges⟩⟩

/-- The ranges of a whole command in the buffer read as its strings. -/
theorem commandRanges_reads {content : Nat → UInt8} {start : Nat} {command : CommandData}
    {name : Range} {args : List Range} (ranges : commandRanges start command = name :: args)
    (holds : readRange content ⟨start, (encodeCommand command).length⟩ = encodeCommand command) :
    (readRange content name, args.map (readRange content)) = command := by
  have strings := readRange_command holds
  rw [ranges, List.map_cons, CommandData.strings] at strings
  obtain ⟨first, others⟩ := List.cons.inj strings
  rw [first, others]

/-- The stages of a command under way go on with the next bytes, up to its end. -/
theorem Underway.goesOn {content kept : Nat → UInt8} {stage : Stage} {command : CommandData}
    {bytes rest : Bytes} {taken : State} {buffer : QueryBuffer} {others : List CommandData}
    (underway : Underway state content stage command bytes)
    (position : taken.position = state.position + stage.request)
    (streams : Streams taken buffer kept rest)
    (split : readRange kept ⟨state.position, stage.request⟩ ++ rest =
      bytes ++ others.flatMap encodeCommand)
    (same : ∀ range : Range, range.offset + range.length ≤ state.position →
      readRange kept range = readRange content range)
    (continues : Continues taken (stage.next state.position taken.position taken.size
      (some (readRange kept ⟨state.position, stage.request⟩))) next) :
    Progress next (command :: others) next.activity ∧ next.handed = taken.handed ∧
      next.socket = taken.socket := by
  obtain ⟨start, name, args, consumed, ranges, begins, behind, whole, feeds⟩ := underway
  have before : readRange kept ⟨start, consumed.length⟩ = consumed := by
    rw [same _ (Nat.le_of_eq begins)]
    exact behind
  have reached : ∀ first : Bytes, first.length = stage.request →
      readRange kept ⟨state.position, stage.request⟩ = first →
      readRange kept ⟨start, (consumed ++ first).length⟩ = consumed ++ first := by
    intro first length found
    rw [List.length_append, readRange_append, before, begins, length, found]
  cases feeds with
  | last length parsed =>
      obtain ⟨found, left⟩ := List.append_inj split (by rw [readRange_length, length])
      have ended := parsed taken.size
      rw [length, ← position] at ended
      rw [found, ended] at continues
      cases continues with
      | command inline terminated resolved =>
          cases terminated
          rcases Option.bind_eq_some_iff.mp resolved with ⟨other, otherCurrent, resolved⟩
          rw [streams.current] at otherCurrent
          cases otherCurrent
          rcases Option.bind_eq_some_iff.mp resolved with ⟨content, allocated, resolved⟩
          rw [streams.allocated] at allocated
          cases allocated
          cases resolved
          have holds := reached bytes length found
          rw [whole] at holds
          have data := commandRanges_reads ranges holds
          have reads : ∀ range, (taken.blocks buffer.data = some kept) →
              State.Reads taken ⟨buffer.data, range⟩ (readRange kept range) := by
            intro range allocated content found
            rw [allocated] at found
            cases found
            rfl
          refine ⟨⟨buffer, kept, others, ?_, by rw [data], ⟨?_, ?_⟩, rfl, ?_⟩, rfl, rfl⟩
          · rw [left] at streams
            exact { streams with }
          · exact reads name streams.allocated
          · refine List.forall₂_map_left_iff.mpr (List.forall₂_map_right_iff.mpr ?_)
            exact List.forall₂_same.mpr fun range _ => reads range streams.allocated
          · intro argument member
            obtain ⟨range, _, rfl⟩ := List.mem_map.mp member
            rfl
  | more length parsed later =>
      rename_i after first remaining
      rw [List.append_assoc] at split
      obtain ⟨found, left⟩ := List.append_inj split (by rw [readRange_length, length])
      have goes := parsed taken.size
      rw [length, ← position] at goes
      rw [found, goes] at continues
      cases continues with
      | more =>
          refine ⟨.inr ⟨buffer, kept, command, others, remaining, ?_, rfl, ⟨?_⟩⟩, rfl, rfl⟩
          · rw [left] at streams
            exact { streams with }
          · refine ⟨start, name, args, consumed ++ first, ranges, ?_, reached first length found,
              ?_, ?_⟩
            · change _ = taken.position
              rw [List.length_append]
              omega
            · rw [List.append_assoc, whole]
            · change Feeds _ _ _ taken.position _
              rw [position, ← length]
              exact later

theorem take_follows {moved : Bool} (fits : ∀ command ∈ commands, command.Fits)
    (follows : Follows config commands state) (patient : Patient state (.take moved))
    (connected : state.connected = true) (took : take config state moved = some next) :
    Follows config commands next := by
  have counted : Counted next := by
    obtain ⟨_, _, _, _, _, _, bytes, _, _, continues⟩ := take_eq took
    exact continues.counted (takeNBytes_counted follows.counted bytes)
  obtain ⟨done, rest, sent, handed, progress⟩ := follows.progress
  obtain ⟨stage, taken, offset, buffer, content, parsing, bytes, current, allocated, continues⟩ :=
    take_eq took
  obtain ⟨handedTaken, unbroken⟩ := takeNBytes_handed bytes follows.unbroken
  have progress := progress connected
  rw [parsing] at progress
  simp only [Patient, parsing] at patient
  -- A parser at the first byte of a command is one that is under way, unless it gets nothing.
  have goesOn : ∀ {before : QueryBuffer} {old : Nat → UInt8} {command : CommandData}
      {others : List CommandData} {input : Bytes}, rest = command :: others →
      Streams state before old (input ++ others.flatMap encodeCommand) →
      Nonempty (Underway state old stage command input) →
      (readSegments state.socket (state.missing stage)).bytes.length = state.missing stage →
      Follows config commands next := by
    rintro before old command others input rfl streams ⟨underway⟩ enough
    obtain ⟨rfl, position, after, kept, left, streams, split, same⟩ :=
      takeNBytes_streams streams follows.unbroken enough bytes
    have own := streams.current
    rw [current] at own
    cases own
    have stored := streams.allocated
    rw [allocated] at stored
    cases stored
    rw [Option.getD_some, Option.map_some] at continues
    obtain ⟨progress, handedNext, socket⟩ :=
      underway.goesOn position streams split same continues
    exact ⟨counted, socket ▸ unbroken, done, command :: others, sent,
      (handedNext.trans handedTaken).trans handed, fun _ => progress⟩
  -- With nothing, it stays there.
  have waits : ∀ {before : QueryBuffer} {old : Nat → UInt8} {input : Bytes}, stage = .type →
      Streams state before old input → state.missing stage ≠ 0 →
      (readSegments state.socket (state.missing stage)).bytes = [] →
      ∃ after kept, Streams next after kept input ∧ next.activity = .parsing .type ∧
        next.position = state.position ∧ next.handed = taken.handed ∧
        next.socket = taken.socket ∧
        ∀ range : Range, range.offset + range.length ≤ state.position →
          readRange kept range = readRange old range := by
    rintro before old input rfl streams short nothing
    obtain ⟨rfl, position, after, kept, streams, same⟩ :=
      takeNBytes_nothing streams short nothing bytes
    have continues : Continues taken .failed next := continues
    cases continues with
    | failed => exact ⟨after, kept, { streams with }, rfl, position, rfl, rfl, same⟩
  have stays : (readSegments state.socket (state.missing stage)).bytes.length =
      state.missing stage ∨ (stage = .type ∧ state.missing stage ≠ 0 ∧
        (readSegments state.socket (state.missing stage)).bytes = []) := by
    rcases patient with enough | ⟨first, nothing⟩
    · exact .inl enough
    · by_cases zero : state.missing stage = 0
      · exact .inl (by rw [nothing, zero, List.length_nil])
      · exact .inr ⟨first, zero, nothing⟩
  rcases progress with ⟨first, before, old, streams⟩ |
    ⟨before, old, command, others, input, streams, rfl, underway⟩
  · rcases stays with enough | ⟨_, short, nothing⟩
    · cases rest with
      | nil =>
          obtain ⟨_, _, _, _, _, _, split, _⟩ :=
            takeNBytes_streams streams follows.unbroken enough bytes
          have length := congrArg List.length split
          rw [List.length_append, readRange_length, first] at length
          cases Nat.le_antisymm (Nat.zero_le 1) (Nat.le.intro length)
      | cons command others =>
          rw [List.flatMap_cons] at streams
          subst first
          exact goesOn rfl streams
            (underway_type (fits command (sent ▸ List.mem_append_right _ (List.mem_cons_self ..))))
            enough
    · obtain ⟨after, kept, streams, still, _, handedNext, socket, _⟩ :=
        waits first streams short nothing
      refine ⟨counted, socket ▸ unbroken, done, rest, sent,
        (handedNext.trans handedTaken).trans handed, fun _ => ?_⟩
      rw [still]
      exact .inl ⟨rfl, after, kept, streams⟩
  · rcases stays with enough | ⟨first, short, nothing⟩
    · exact goesOn rfl streams underway enough
    · obtain ⟨after, kept, streams, still, position, handedNext, socket, same⟩ :=
        waits first streams short nothing
      obtain ⟨start, name, args, consumed, ranges, begins, behind, whole, feeds⟩ := underway
      refine ⟨counted, socket ▸ unbroken, done, _, sent,
        (handedNext.trans handedTaken).trans handed, fun _ => ?_⟩
      rw [still]
      refine .inr ⟨after, kept, command, others, input, streams, rfl,
        ⟨⟨start, name, args, consumed, ranges, begins.trans position.symm, ?_, whole, ?_⟩⟩⟩
      · rw [same _ (Nat.le_of_eq begins)]
        exact behind
      · rw [position, ← first]
        exact feeds

/-- A refill keeps the block of a buffer that others refer to, or when it finds nothing. -/
theorem Refills.kept {read : State} {count : Option Nat} {buffer : QueryBuffer}
    {content : Nat → UInt8} (refills : Refills config state read count) (counted : Counted state)
    (current : state.current = some buffer) (allocated : state.blocks buffer.data = some content)
    (harmless : 1 < buffer.refcount ∨ (readSegments state.socket buffer.size).bytes = []) :
    read.blocks buffer.data = some content := by
  obtain ⟨other, otherContent, otherCurrent, otherAllocated, filled, _⟩ :=
    readFromSocket_eq refills.filled
  have own := refills.current
  rw [otherCurrent] at own
  obtain ⟨before, found, ways⟩ := refreshBuffer_eq refills.refreshed
  rw [current] at found
  cases found
  rcases ways with ⟨single, same⟩ | ⟨_, same⟩
  · have nothing := harmless.resolve_left (by omega)
    rw [same, current] at otherCurrent
    cases otherCurrent
    rw [same, allocated] at otherAllocated
    cases otherAllocated
    rw [same, ← Option.some.inj own, nothing, writeBytes_nil] at filled
    rw [filled]
    exact Function.update_self ..
  · have fresh : buffer.data ≠ state.nextAddress := by
      intro clash
      rw [clash, (counted.fresh state.nextAddress (Nat.le_refl _)).1] at allocated
      cases allocated
    have data : other.data = state.nextAddress := by
      have new : refills.fresh.current = some ⟨state.nextAddress, respBufSize, 1⟩ := by
        rw [same]
        exact Function.update_self ..
      rw [otherCurrent] at new
      cases new
      rfl
    rw [filled]
    change (State.setBlock _ other.data _).blocks buffer.data = _
    rw [blocks_setBlock, if_neg (data ▸ fresh), same]
    change (State.setBlock _ state.nextAddress _).blocks buffer.data = _
    rw [blocks_setBlock, if_neg fresh]
    exact allocated

/-- Pointers whose blocks are as before, or freed. -/
theorem reads_of_blocks {args : List Pointer} {bytes : List Bytes}
    (reads : List.Forall₂ state.Reads args bytes)
    (blocks : ∀ pointer ∈ args, ∀ content,
      next.blocks pointer.block = some content → state.blocks pointer.block = some content) :
    List.Forall₂ next.Reads args bytes := by
  induction reads with
  | nil => exact .nil
  | cons first _ inductionHypothesis =>
      refine .cons (fun content found => first content ?_) (inductionHypothesis ?_)
      · exact blocks _ (List.mem_cons_self ..) content found
      · exact fun pointer member => blocks pointer (List.mem_cons_of_mem _ member)

theorem Command.Reads.of_blocks {command : Command} (reads : command.Reads state)
    (blocks : ∀ pointer ∈ command.name :: command.args, ∀ content,
      next.blocks pointer.block = some content → state.blocks pointer.block = some content) :
    command.Reads next where
  name content found := reads.name content (blocks _ (List.mem_cons_self ..) content found)
  args := reads_of_blocks reads.args fun pointer member =>
    blocks pointer (List.mem_cons_of_mem _ member)

/-- The arguments read as what was sent, if they can be read. -/
theorem mapM_reads {args : List Pointer} {bytes found : List Bytes}
    (reads : List.Forall₂ state.Reads args bytes) (read : args.mapM state.read = some found) :
    found = bytes := by
  induction reads generalizing found with
  | nil =>
      cases read
      rfl
  | cons first _ inductionHypothesis =>
      rw [List.mapM_cons] at read
      rcases Option.bind_eq_some_iff.mp read with ⟨value, head, read⟩
      rcases Option.bind_eq_some_iff.mp read with ⟨values, tail, read⟩
      cases read
      obtain ⟨content, allocated, same⟩ := Option.map_eq_some_iff.mp head
      rw [inductionHypothesis tail, ← same, first content allocated]

theorem checkEnd_follows (follows : Follows config commands state)
    (patient : Patient state .checkEnd) (connected : state.connected = true)
    (checked : checkEnd config state = some next) : Follows config commands next := by
  have counted := checkEnd_counted follows.counted connected checked
  obtain ⟨done, rest, sent, handed, progress⟩ := follows.progress
  obtain ⟨command, buffer, parsed, current, ways⟩ := checkEnd_eq checked
  have progress := progress connected
  rw [parsed] at progress
  obtain ⟨other, content, others, streams, rfl, reads, name, args⟩ := progress
  have own := streams.current
  rw [current] at own
  cases own
  rcases ways with ⟨_, rfl⟩ | ⟨ended, _, rfl⟩ | ⟨ended, full, read, count, ⟨refills⟩, rfl⟩
  · refine ⟨counted, follows.unbroken, done, _, sent, handed, fun _ => ?_⟩
    exact ⟨others, rfl, reads.of_blocks fun _ _ _ found => found, buffer, content,
      { streams with }⟩
  · refine ⟨counted, follows.unbroken, done, _, sent, handed, fun _ => ?_⟩
    refine ⟨others, rfl, reads.of_blocks fun _ _ _ found => found, ?_⟩
    have unread := streams.unread
    rw [ended, Nat.sub_self] at unread
    exact unread
  · have harmless : 1 < buffer.refcount ∨
        (readSegments state.socket buffer.size).bytes = [] := by
      simp only [Patient, current] at patient
      exact patient ended full
    have block := refills.kept follows.counted current streams.allocated harmless
    obtain ⟨after, fresh, bytes, bounded, currentAfter, allocated, rfl, found, unread, unbroken,
      _⟩ := refills.streams follows.unbroken
    have rest : stream state.socket = others.flatMap encodeCommand := by
      have unread := streams.unread
      rw [ended, Nat.sub_self] at unread
      exact unread
    refine ⟨counted, unbroken, done, _, sent, refills.undisturbed.handed.trans handed,
      fun _ => ⟨others, rfl, reads.of_blocks ?_, after, fresh, ?_⟩⟩
    · intro pointer member otherContent stored
      have inside : pointer.block = buffer.data := by
        rcases List.mem_cons.mp member with rfl | argument
        · exact name
        · exact args pointer argument
      rw [inside] at stored ⊢
      have stored : read.blocks buffer.data = some otherContent := stored
      rw [block] at stored
      rw [streams.allocated, stored]
    · refine ⟨currentAfter, allocated, Nat.zero_le _, bounded, ?_⟩
      change readRange fresh ⟨0, bytes.length - 0⟩ ++ stream read.socket = _
      rw [Nat.sub_zero, found, unread, rest]

theorem deliver_follows {allocated : Bool} (follows : Follows config commands state)
    (connected : state.connected = true) (patient : Patient state (.deliver allocated))
    (delivered : deliver config state allocated = some next) : Follows config commands next := by
  have counted := deliver_counted follows.counted delivered
  obtain ⟨rfl, unlocked⟩ := patient
  obtain ⟨done, rest, sent, handed, progress⟩ := follows.progress
  obtain ⟨command, more, ready, delivers⟩ := deliver_eq delivered
  have progress := progress connected
  rw [ready] at progress
  obtain ⟨others, rfl, reads, streams⟩ := progress
  have sent : commands = (done ++ [command.data]) ++ others := by
    rw [sent, List.append_assoc, List.singleton_append]
  have sentName : ∀ name, state.read command.name = some name → name = command.data.1 := by
    intro name named
    obtain ⟨content, allocated, same⟩ := Option.map_eq_some_iff.mp named
    rw [← same]
    exact reads.name content allocated
  have looped : ∀ activity : Activity, activity = (if more then .parsing .type else .idle) →
      Progress { state with activity := activity } others activity := by
    rintro _ rfl
    cases more with
    | true =>
        obtain ⟨buffer, content, streams⟩ := streams
        exact .inl ⟨rfl, buffer, content, { streams with }⟩
    | false => exact streams
  cases delivers with
  | locked locked =>
      rw [unlocked] at locked
      cases locked
  | unknown _ named unknown =>
      refine ⟨counted, follows.unbroken, _, others, sent, ?_, fun _ => looped _ rfl⟩
      rw [sentName _ named] at unknown
      rw [knownCommands_append, unknown, if_neg Bool.false_ne_true]
      exact handed
  | handed _ named known read added =>
      rw [sentName _ named] at known added
      rw [mapM_reads reads.args read, if_pos rfl] at added
      rcases Option.bind_eq_some_iff.mp added with ⟨buffer, current, added⟩
      cases added
      refine ⟨counted, follows.unbroken, _, others, sent, ?_, fun _ => ?_⟩
      · rw [knownCommands_append, if_pos known, ← handed]
        rfl
      · cases more with
        | true =>
            obtain ⟨other, content, streams⟩ := streams
            have own := streams.current
            rw [show state.current = some buffer from current] at own
            cases own
            exact .inl ⟨rfl, { buffer with refcount := buffer.refcount + 1 }, content,
              ⟨Function.update_self .., streams.allocated, streams.ordered, streams.bounded,
                streams.unread⟩⟩
        | false => exact streams

/-- Progress depends on the part of the I/O thread, on its buffer, and on blocks that are not
written. -/
theorem Progress.congr {rest : List CommandData} {activity : Activity}
    (progress : Progress state rest activity) (position : next.position = state.position)
    (socket : next.socket = state.socket)
    (blocks : ∀ block content, next.blocks block = some content →
      state.blocks block = some content)
    (streams : ∀ buffer content input, Streams state buffer content input →
      ∃ after, Streams next after content input ∧ after.data = buffer.data) :
    Progress next rest activity := by
  have kept : ∀ command : Command, command.Reads state → command.Reads next :=
    fun command reads => reads.of_blocks fun _ _ content found => blocks _ content found
  cases activity with
  | idle =>
      change stream next.socket = _
      rw [socket]
      exact progress
  | parsing stage =>
      rcases progress with ⟨first, buffer, content, before⟩ |
        ⟨buffer, content, command, others, bytes, before, same, ⟨underway⟩⟩
      · obtain ⟨after, now, _⟩ := streams buffer content _ before
        exact .inl ⟨first, after, content, now⟩
      · obtain ⟨after, now, _⟩ := streams buffer content _ before
        obtain ⟨start, name, args, consumed, ranges, begins, behind, whole, feeds⟩ := underway
        rw [← position] at begins feeds
        exact .inr ⟨after, content, command, others, bytes, now, same,
          ⟨⟨start, name, args, consumed, ranges, begins, behind, whole, feeds⟩⟩⟩
  | parsed command =>
      obtain ⟨buffer, content, others, before, same, reads, name, args⟩ := progress
      obtain ⟨after, now, data⟩ := streams buffer content _ before
      rw [← data] at name args
      exact ⟨after, content, others, now, same, kept command reads, name, args⟩
  | ready command more =>
      obtain ⟨others, same, reads, left⟩ := progress
      refine ⟨others, same, kept command reads, ?_⟩
      split
      · rename_i goesOn
        rw [if_pos goesOn] at left
        obtain ⟨buffer, content, before⟩ := left
        obtain ⟨after, now, _⟩ := streams buffer content _ before
        exact ⟨after, content, now⟩
      · rename_i ends
        rw [if_neg ends] at left
        rw [socket]
        exact left

theorem releaseBuffer_socket {address : Nat} (released : releaseBuffer state address = some next) :
    next.socket = state.socket := by
  rcases Option.bind_eq_some_iff.mp released with ⟨buffer, _, released⟩
  split at released
  · cases released
    rfl
  · cases released
    rfl

/-- The end of one reference only frees blocks. -/
theorem releaseBuffer_blocks {address : Nat} (released : releaseBuffer state address = some next)
    (block : Nat) (content : Nat → UInt8) (found : next.blocks block = some content) :
    state.blocks block = some content := by
  rcases Option.bind_eq_some_iff.mp released with ⟨buffer, _, released⟩
  split at released
  · cases released
    have found : (State.setBlock _ buffer.data none).blocks block = some content := found
    rw [blocks_setBlock] at found
    split at found
    · cases found
    · exact found
  · cases released
    exact found

/-- What the I/O thread is doing outlives the end of a transaction. -/
theorem Progress.release {address : Nat} {references : Nat → Nat} {rest : List CommandData}
    (progress : Progress state rest state.activity) (counted : CountedBy references state)
    (others : state.readBuf = address → references address ≠ 1)
    (released : releaseBuffer state address = some next) : Progress next rest next.activity := by
  obtain ⟨undisturbed, readBuf⟩ := releaseBuffer_undisturbed released
  have socket := releaseBuffer_socket released
  rw [undisturbed.activity]
  refine progress.congr undisturbed.position socket (releaseBuffer_blocks released) ?_
  intro buffer content input streams
  obtain ⟨block, after, found, data, size⟩ :=
    releaseBuffer_shared counted streams.current others released
  refine ⟨after, ⟨?_, ?_, ?_, ?_, ?_⟩, data⟩
  · rw [State.current, readBuf]
    exact found
  · rw [data, block]
    exact streams.allocated
  · rw [undisturbed.position, undisturbed.size]
    exact streams.ordered
  · rw [undisturbed.size, size]
    exact streams.bounded
  · rw [undisturbed.position, undisturbed.size, socket]
    exact streams.unread

theorem execute_follows {index : Nat} (follows : Follows config commands state)
    (executed : execute state index = some next) : Follows config commands next := by
  have counted := execute_counted follows.counted executed
  rcases Option.bind_eq_some_iff.mp executed with ⟨transaction, found, released⟩
  obtain ⟨undisturbed, _⟩ := releaseBuffer_undisturbed released
  obtain ⟨done, rest, sent, handed, progress⟩ := follows.progress
  have waits : CountedBy state.references
      { state with pending := state.pending.eraseIdx index } := { follows.counted with }
  refine ⟨counted, ?_, done, rest, sent, undisturbed.handed.trans handed, fun connected => ?_⟩
  · rw [releaseBuffer_socket released]
    exact follows.unbroken
  · rw [undisturbed.connected] at connected
    have erased : Progress { state with pending := state.pending.eraseIdx index } rest
        state.activity :=
      (progress connected).congr rfl rfl (fun _ _ found => found)
        fun buffer content input streams => ⟨buffer, { streams with }, rfl⟩
    exact erased.release waits
      (references_shared (List.mem_of_getElem? found) connected) released

theorem disconnect_follows (follows : Follows config commands state)
    (disconnected : disconnect state = some next) : Follows config commands next := by
  have counted := disconnect_counted follows.counted disconnected
  rw [disconnect] at disconnected
  split at disconnected
  · obtain ⟨undisturbed, _⟩ := releaseBuffer_undisturbed disconnected
    obtain ⟨done, rest, sent, handed, _⟩ := follows.progress
    refine ⟨counted, ?_, done, rest, sent, undisturbed.handed.trans handed, fun still => ?_⟩
    · rw [releaseBuffer_socket disconnected]
      exact follows.unbroken
    · rw [undisturbed.connected] at still
      cases still
  · cases disconnected

/-- One patient step. -/
theorem step_follows {action : Action} (fits : ∀ command ∈ commands, command.Fits)
    (follows : Follows config commands state) (patient : Patient state action)
    (stepped : step config state action = some next) : Follows config commands next := by
  cases action with
  | start =>
      obtain ⟨connected, started⟩ := Option.ite_none_right_eq_some.mp stepped
      exact start_follows follows connected started
  | take moved =>
      obtain ⟨connected, took⟩ := Option.ite_none_right_eq_some.mp stepped
      exact take_follows fits follows patient connected took
  | checkEnd =>
      obtain ⟨connected, checked⟩ := Option.ite_none_right_eq_some.mp stepped
      exact checkEnd_follows follows patient connected checked
  | deliver allocated =>
      obtain ⟨connected, delivered⟩ := Option.ite_none_right_eq_some.mp stepped
      exact deliver_follows follows connected patient delivered
  | execute index => exact execute_follows follows stepped
  | lock locked =>
      cases stepped
      obtain ⟨done, rest, sent, handed, progress⟩ := follows.progress
      refine ⟨{ follows.counted with }, follows.unbroken, done, rest, sent, handed, ?_⟩
      intro connected
      exact (progress connected).congr rfl rfl (fun _ _ found => found)
        fun buffer content input streams => ⟨buffer, { streams with }, rfl⟩
  | disconnect => exact disconnect_follows follows stepped

/-- The reader of a connected client has read everything, and holds no parsed command. -/
def CaughtUp (state : State) : Prop :=
  state.connected = true ∧ stream state.socket = [] ∧
    match state.activity with
    | .idle => True
    | .parsing _ => state.position = state.size
    | .parsed _ | .ready _ _ => False

theorem flatMap_encodeCommand_eq_nil {commands : List CommandData}
    (none : commands.flatMap encodeCommand = []) : commands = [] := by
  cases commands with
  | nil => rfl
  | cons command others =>
      exact absurd (List.append_eq_nil_iff.mp none).1 (encodeCommand_ne_nil command)

theorem Progress.caughtUp {rest : List CommandData} (caughtUp : CaughtUp state)
    (progress : Progress state rest state.activity) : rest = [] := by
  obtain ⟨_, drained, between⟩ := caughtUp
  cases activity : state.activity with
  | idle =>
      rw [activity] at progress
      exact flatMap_encodeCommand_eq_nil (progress.symm.trans drained)
  | parsing stage =>
      rw [activity] at progress between
      have between : state.position = state.size := between
      have nothing : ∀ {buffer content input}, Streams state buffer content input →
          input = [] := by
        intro buffer content input streams
        have unread := streams.unread
        rw [between, Nat.sub_self, drained] at unread
        exact unread.symm
      rcases progress with ⟨_, _, _, streams⟩ | ⟨_, _, _, _, _, streams, _, ⟨underway⟩⟩
      · exact flatMap_encodeCommand_eq_nil (nothing streams)
      · exact absurd (List.append_eq_nil_iff.mp (nothing streams)).1 underway.feeds.ne_nil
  | parsed command =>
      rw [activity] at between
      exact between.elim
  | ready command more =>
      rw [activity] at between
      exact between.elim

theorem connected_follows {socket : List Segment} (unbroken : Unbroken socket)
    (sent : stream socket = commands.flatMap encodeCommand) :
    Follows config commands (connected config socket) :=
  ⟨connected_counted socket, unbroken, [], commands, rfl, rfl, fun _ => sent⟩

/-- In every run whose steps are patient, however the bytes of the commands are split, the
commands handed over are the first ones of those sent that have a known name, in their order
and with their bytes, and they are all of these once everything was read. -/
theorem commands_handed {socket : List Segment} {actions : List Action} {final : State}
    (fits : ∀ command ∈ commands, command.Fits) (unbroken : Unbroken socket)
    (sent : stream socket = commands.flatMap encodeCommand)
    (patient : Guarded (step config) Patient (connected config socket) actions)
    (ran : run (step config) (connected config socket) actions = some final) :
    final.handed <+: config.knownCommands commands ∧
      (CaughtUp final → final.handed = config.knownCommands commands) := by
  have follows : Follows config commands final := guarded_run_invariant
    (fun _ _ _ follows patient stepped => step_follows fits follows patient stepped)
    (connected_follows unbroken sent) patient ran
  obtain ⟨done, rest, rfl, handed, progress⟩ := follows.progress
  refine ⟨?_, fun caughtUp => ?_⟩
  · rw [handed, Config.knownCommands, Config.knownCommands, List.filter_append]
    exact List.prefix_append ..
  · rw [Progress.caughtUp caughtUp (progress caughtUp.1), List.append_nil]
    exact handed

end Steps

/-! ## Commands on fixed input -/

/-- A server that knows every name. -/
def pingConfig : Config where
  known _ := true
  garbage _ _ := 0

/-- One command, cut inside its name. -/
def pingSocket (between : List Segment) : List Segment :=
  ⟨text "*1\r\n$4\r\nPI", false⟩ :: between ++ [⟨text "NG\r\n", false⟩]

def ping : CommandData := (text "PING", [])

/-- The reader takes so many times, and then ends the command. -/
def pingActions (takes : Nat) : List Action :=
  .start :: List.replicate takes (.take false) ++ [.checkEnd, .deliver true]

theorem commands_handed_in_two_parts :
    ∃ final, run (step pingConfig) (connected pingConfig (pingSocket [])) (pingActions 10) =
        some final ∧ final.handed <+: pingConfig.knownCommands [ping] ∧
      (CaughtUp final → final.handed = pingConfig.knownCommands [ping]) := by
  have fits : ∀ command ∈ [ping], command.Fits := by
    intro command member
    cases List.mem_singleton.mp member
    unfold CommandData.Fits
    decide +kernel
  have unbroken : Unbroken (pingSocket []) := by
    unfold Unbroken
    decide +kernel
  have sent : stream (pingSocket []) = [ping].flatMap encodeCommand := by decide +kernel
  have reached : (run (step pingConfig) (connected pingConfig (pingSocket []))
      (pingActions 10)).isSome = true := by
    decide +kernel
  obtain ⟨final, ran⟩ := Option.isSome_iff_exists.mp reached
  have patient : Guarded (step pingConfig) Patient (connected pingConfig (pingSocket []))
      (pingActions 10) := by
    decide +kernel
  exact ⟨final, ran, commands_handed fits unbroken sent patient ran⟩

/-- When the rest of the name is not there yet, the parser starts over in the middle of the
command, and hands over another one. -/
theorem commands_handed_fails_when_cut : ¬ ∀ (actions : List Action) (final : State),
    run (step pingConfig) (connected pingConfig (pingSocket [⟨[], false⟩])) actions =
      some final → final.handed <+: pingConfig.knownCommands [ping] ∧
        (CaughtUp final → final.handed = pingConfig.knownCommands [ping]) := by
  intro always
  have reached : (run (step pingConfig) (connected pingConfig (pingSocket [⟨[], false⟩]))
      (pingActions 16)).map State.handed = some [(text "PING\r\n", [])] := by
    decide +kernel
  obtain ⟨final, ran, handed⟩ := Option.map_eq_some_iff.mp reached
  have invented := (always _ final ran).1
  rw [handed] at invented
  revert invented
  decide +kernel

end TellyDB.Server.Reader
