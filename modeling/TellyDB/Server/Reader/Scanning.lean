import TellyDB.Server.Reader.Termination

/-!
Owns for which delivered bytes `read_command` returns, said of the bytes alone: they are cut
into what the parser makes commands of and what it drops, as far as they are in the buffer or
can be added to it, and the last thing must be a command that ends with them.
-/

namespace TellyDB.Server.Reader

open Resp

/-- The bytes in a read buffer, how many of them are read, the size of the buffer, and the bytes
still to come. `shared` is set once a command of the buffer was known, so that a transaction
may refer to it. -/
structure Scan where
  held : Bytes
  position : Nat
  capacity : Nat
  rest : Bytes
  shared : Bool

namespace Scan

/-- The bytes that were delivered, before any is read. -/
def first (capacity : Nat) (bytes : Bytes) : Scan :=
  ⟨bytes.take capacity, 0, capacity, bytes.drop capacity, false⟩

/-- A parser asks for `n` bytes. The buffer grows by those that it lacks, and they are added to it;
where no byte is left to come, the parser gets none. There is no way on where the buffer would
outgrow an `int32_t`, and where some are left, but too few: the rest is taken from memory as if
it had been sent, and nothing is left behind it. -/
def take (scan : Scan) (n : Nat) : Option (Scan × Option Bytes) :=
  let missing := n - (scan.held.length - scan.position)
  let grown := { scan with capacity := max scan.capacity (scan.held.length + missing) }
  if missing = 0 then
    some ({ scan with position := scan.position + n },
      some ((scan.held.drop scan.position).take n))
  else if int32Max < scan.held.length + missing then none
  else if scan.rest = [] then some (grown, none)
  else if missing ≤ scan.rest.length then
    let held := scan.held ++ scan.rest.take missing
    some ({ grown with
      held := held, rest := scan.rest.drop missing, position := scan.position + n },
      some ((held.drop scan.position).take n))
  else none

/-- What a stage of a parser makes of its bytes. -/
def parse (scan : Scan) (stage : Stage) : Option (Scan × Parsed) :=
  (scan.take stage.request).map fun taken =>
    (taken.1, stage.next scan.position taken.1.position taken.1.held.length taken.2)

/-- The bytes of a string. -/
def string (scan : Scan) (range : Range) : Bytes :=
  (scan.held.drop range.offset).take range.length

/-- There is room for a NUL behind each string. -/
def Fits (scan : Scan) (ranges : List Range) : Prop :=
  ∀ range ∈ ranges, range.offset + range.length < scan.capacity

/-- The NULs behind the strings of an inline command. -/
def terminate (scan : Scan) (ranges : List Range) : Scan :=
  { scan with
    held := ranges.foldl (fun held range => held.set (range.offset + range.length) 0) scan.held }

/-- The strings of a command, which get NULs if it is an inline one. -/
def ended (scan : Scan) (inline : Bool) (ranges : List Range) : Scan :=
  if inline then scan.terminate ranges else scan

/-- A command of this name was parsed. -/
def hand (known : Bytes → Bool) (scan : Scan) (name : Bytes) : Scan :=
  { scan with shared := scan.shared || known name }

/-- The next bytes, which go over those that were read. -/
def refill (scan : Scan) : Scan :=
  first scan.capacity scan.rest

/-- The bytes of a string behind a refill. -/
def overwritten (scan : Scan) (range : Range) : Bytes :=
  ((scan.refill.held ++ scan.held.drop scan.refill.held.length).drop range.offset).take
    range.length

end Scan

/-- From a stage of a parser on, what is left is read to its end: the parser goes on, or drops
what it has, or makes a command of it. The last command ends with the last byte, in a buffer
with room behind it. Where a command ends with a full buffer, the buffer is filled again; then no
known command may lie in front of it, whose execution could free the buffer. -/
inductive Returns (known : Bytes → Bool) : Stage → Scan → Prop where
  | more {stage later : Stage} {scan next : Scan} (parsed : scan.parse stage =
      some (next, .more later)) (returns : Returns known later next) : Returns known stage scan
  | dropped {stage : Stage} {scan next : Scan} (parsed : scan.parse stage = some (next, .failed))
      (returns : Returns known .type next) : Returns known stage scan
  | last {stage : Stage} {scan next : Scan} {name : Range} {args : List Range} {inline : Bool}
      (parsed : scan.parse stage = some (next, .command name args inline))
      (fits : inline = true → next.Fits (name :: args))
      (ended : next.position = next.held.length) (room : next.held.length ≠ next.capacity) :
      Returns known stage scan
  | behind {stage : Stage} {scan next : Scan} {name : Range} {args : List Range} {inline : Bool}
      (parsed : scan.parse stage = some (next, .command name args inline))
      (fits : inline = true → next.Fits (name :: args))
      (left : next.position ≠ next.held.length)
      (returns : Returns known .type ((next.ended inline (name :: args)).hand known
        ((next.ended inline (name :: args)).string name))) :
      Returns known stage scan
  | refilled {stage : Stage} {scan next : Scan} {name : Range} {args : List Range} {inline : Bool}
      (parsed : scan.parse stage = some (next, .command name args inline))
      (fits : inline = true → next.Fits (name :: args))
      (ended : next.position = next.held.length) (full : next.held.length = next.capacity)
      (alone : next.shared = false)
      (returns : Returns known .type ((next.ended inline (name :: args)).refill.hand known
        ((next.ended inline (name :: args)).overwritten name))) :
      Returns known stage scan

/-! ## What resumes a parser -/

section Rules

variable {known : Bytes → Bool} {stage : Stage} {scan next : Scan} {name : Range}
  {args : List Range}

/-- What is to come behind a command. -/
def Goes (known : Bytes → Bool) (scan : Scan) (name : Range) : Prop :=
  (scan.position = scan.held.length ∧ scan.held.length ≠ scan.capacity) ∨
    (scan.position ≠ scan.held.length ∧
      Returns known .type (scan.hand known (scan.string name))) ∨
    (scan.position = scan.held.length ∧ scan.held.length = scan.capacity ∧ scan.shared = false ∧
      Returns known .type (scan.refill.hand known (scan.overwritten name)))

/-- What is to come behind what a stage made of its bytes. -/
def Resumes (known : Bytes → Bool) (scan : Scan) : Parsed → Prop
  | .more stage => Returns known stage scan
  | .failed => Returns known .type scan
  | .command name args inline =>
      (inline = true → scan.Fits (name :: args)) ∧ Goes known (scan.ended inline (name :: args)) name
  | .overflow => False

theorem length_terminated (ranges : List Range) (held : Bytes) :
    (ranges.foldl (fun held range => held.set (range.offset + range.length) 0) held).length =
      held.length := by
  induction ranges generalizing held with
  | nil => rfl
  | cons range rest inductionHypothesis =>
      rw [List.foldl_cons, inductionHypothesis, List.length_set]

theorem length_ended (scan : Scan) (inline : Bool) (ranges : List Range) :
    (scan.ended inline ranges).held.length = scan.held.length := by
  cases inline with
  | false => rfl
  | true => exact length_terminated ranges scan.held

/-- The NULs change nothing but the bytes. -/
theorem ended_same (scan : Scan) (inline : Bool) (ranges : List Range) :
    (scan.ended inline ranges).position = scan.position ∧
      (scan.ended inline ranges).capacity = scan.capacity ∧
      (scan.ended inline ranges).rest = scan.rest ∧
      (scan.ended inline ranges).shared = scan.shared := by
  cases inline <;> exact ⟨rfl, rfl, rfl, rfl⟩

theorem returns_iff : Returns known stage scan ↔
    ∃ next parsed, scan.parse stage = some (next, parsed) ∧ Resumes known next parsed := by
  constructor
  · intro returns
    cases returns with
    | more parsed later => exact ⟨_, _, parsed, later⟩
    | dropped parsed later => exact ⟨_, _, parsed, later⟩
    | @last _ _ next name args inline parsed fits ended room =>
        obtain ⟨position, capacity, -, -⟩ := ended_same next inline (name :: args)
        refine ⟨_, _, parsed, fits, .inl ?_⟩
        rw [length_ended, position, capacity]
        exact ⟨ended, room⟩
    | @behind _ _ next name args inline parsed fits left later =>
        obtain ⟨position, -⟩ := ended_same next inline (name :: args)
        refine ⟨_, _, parsed, fits, .inr (.inl ⟨?_, later⟩)⟩
        rw [length_ended, position]
        exact left
    | @refilled _ _ next name args inline parsed fits ended full alone later =>
        obtain ⟨position, capacity, -, shared⟩ := ended_same next inline (name :: args)
        refine ⟨_, _, parsed, fits, .inr (.inr ⟨?_, ?_, ?_, later⟩)⟩
        · rw [length_ended, position]
          exact ended
        · rw [length_ended, capacity]
          exact full
        · rw [shared]
          exact alone
  · rintro ⟨next, parsed, parse, resumes⟩
    cases parsed with
    | more later => exact .more parse resumes
    | failed => exact .dropped parse resumes
    | overflow => exact resumes.elim
    | command name args inline =>
        obtain ⟨position, capacity, -, shared⟩ := ended_same next inline (name :: args)
        obtain ⟨fits, ⟨ended, room⟩ | ⟨left, later⟩ | ⟨ended, full, alone, later⟩⟩ := resumes
        · rw [length_ended, position] at ended
          rw [length_ended, capacity] at room
          exact .last parse fits ended room
        · rw [length_ended, position] at left
          exact .behind parse fits left later
        · rw [length_ended, position] at ended
          rw [length_ended, capacity] at full
          rw [shared] at alone
          exact .refilled parse fits ended full alone later

/-! ## Nothing left -/

/-- All bytes are read. -/
def Scan.Spent (scan : Scan) : Prop := scan.position = scan.held.length ∧ scan.rest = []

theorem Scan.Spent.take (spent : scan.Spent) {n : Nat} (some_ : n ≠ 0) {taken : Scan × Option Bytes}
    (took : scan.take n = some taken) : taken.2 = none ∧ taken.1.Spent := by
  obtain ⟨ended, nothing⟩ := spent
  have missing : n - (scan.held.length - scan.position) = n := by omega
  rw [Scan.take, missing] at took
  simp only [if_neg some_, if_pos nothing] at took
  split at took
  · cases took
  · cases took
    exact ⟨rfl, ended, nothing⟩

theorem not_returns_type (spent : scan.Spent) : ¬ Returns known .type scan := by
  intro returns
  generalize same : Stage.type = stage at returns
  induction returns with
  | @dropped _ scan next parsed _ inductionHypothesis =>
      subst same
      obtain ⟨taken, took, same⟩ := Option.map_eq_some_iff.mp parsed
      have left := (spent.take Nat.one_ne_zero took).2
      rw [show taken.1 = next from congrArg Prod.fst same] at left
      exact inductionHypothesis left rfl
  | more parsed | last parsed | behind parsed | refilled parsed =>
      subst same
      obtain ⟨⟨next, bytes⟩, took, same⟩ := Option.map_eq_some_iff.mp parsed
      obtain rfl : bytes = none := (spent.take Nat.one_ne_zero took).1
      cases same

/-- Behind bytes that never came, in a buffer that counts them, nothing returns. -/
theorem not_goes (spent : scan.Spent) (full : scan.held.length = scan.capacity) :
    ¬ Goes known scan name := by
  rintro (⟨-, room⟩ | ⟨left, -⟩ | ⟨-, -, -, returns⟩)
  · exact room full
  · exact left spent.1
  · refine not_returns_type ⟨?_, ?_⟩ returns
    · change 0 = (scan.rest.take scan.capacity).length
      rw [spent.2, List.take_nil]
      rfl
    · change scan.rest.drop scan.capacity = []
      rw [spent.2, List.drop_nil]

/-- A parser that gets its bytes is behind them. -/
theorem Scan.take_position {n : Nat} {taken : Scan × Option Bytes}
    (took : scan.take n = some taken) :
    if taken.2 = none then scan.position = taken.1.position
    else scan.position + n = taken.1.position := by
  rw [Scan.take] at took
  dsimp only at took
  split at took
  · cases took
    rfl
  · split at took
    · cases took
    · split at took
      · cases took
        rfl
      · split at took
        · cases took
          rfl
        · cases took

/-- A stage that gets nothing drops what it has, but for a name, which ends there. -/
theorem not_returns_spent (spent : scan.Spent) (asks : stage.request ≠ 0)
    (unnamed : ∀ name, stage ≠ .inlineName name) : ¬ Returns known stage scan := by
  intro returns
  obtain ⟨next, parsed, parse, resumes⟩ := returns_iff.mp returns
  obtain ⟨taken, took, same⟩ := Option.map_eq_some_iff.mp parse
  obtain ⟨none_, left⟩ := spent.take asks took
  rw [none_, Stage.next.eq_def, Prod.mk.injEq] at same
  obtain ⟨rfl, same⟩ := same
  split at same
  · next name => exact unnamed _ rfl
  · subst same
    exact not_returns_type left resumes
  all_goals
    rename_i impossible
    cases impossible

/-- Bytes that never came are taken for the end of a string or of a line. -/
theorem not_resumes (spent : scan.Spent) (full : scan.held.length = scan.capacity)
    (several : 2 ≤ stage.request) (offset : Nat) (bytes : Bytes) :
    ¬ Resumes known scan
      (stage.next offset scan.position scan.held.length (some bytes)) := by
  have command : ∀ name args inline, ¬ Resumes known scan (.command name args inline) := by
    rintro name args inline ⟨-, goes⟩
    obtain ⟨position, capacity, rest, -⟩ := ended_same scan inline (name :: args)
    refine not_goes ⟨?_, rest.trans spent.2⟩ ?_ goes
    · rw [position, length_ended]
      exact spent.1
    · rw [length_ended, capacity]
      exact full
  have failed : ¬ Resumes known scan .failed := not_returns_type spent
  cases stage with
  | bulkData todo done length =>
      exact not_returns_spent spent (Nat.succ_ne_zero 1) fun name => Stage.noConfusion
  | bulkEnd todo done =>
      rw [Stage.next]
      split
      · rw [bulkParsed.eq_def]
        split
        · split
          · exact command _ _ _
          · exact failed
        · exact not_returns_spent spent Nat.one_ne_zero fun name => Stage.noConfusion
      · exact failed
  | inlineNameEnd name =>
      rw [Stage.next]
      split
      · rw [nameParsed, if_pos spent.1]
        exact command _ _ _
      · exact failed
  | inlineArgumentEnd name args =>
      rw [Stage.next]
      split
      · exact command _ _ _
      · exact failed
  | _ => exact absurd several (Nat.lt_irrefl 1)

end Rules

end TellyDB.Server.Reader
