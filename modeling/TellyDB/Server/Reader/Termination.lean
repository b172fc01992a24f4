import TellyDB.Lib.Finishing
import TellyDB.Server.Reader.Pipelining

/-!
Owns where `read_command` spins: at the first byte of a command, with nothing left to read.
Every other step takes bytes, or leads to a stage that is closer to taking some.
-/

namespace TellyDB.Server.Reader

open Resp Lib.Transition

/-- A step of `read_command`, behind its head. -/
def Action.Reading : Action → Prop
  | .take _ | .checkEnd | .deliver _ => True
  | _ => False

/-- What other threads do beside `read_command`. They do not remove the client, which is up to
the thread that reads it. -/
def Action.Elsewhere : Action → Prop
  | .execute _ | .lock _ => True
  | _ => False

/-- `read_command` is at the first byte of a command, and has nothing to read. -/
def State.Starving (state : State) : Prop :=
  state.activity = .parsing .type ∧ state.size ≤ state.position ∧ state.socket = []

/-! ## What is used up -/

/-- The bytes to read, and the segments they come in. -/
def weight (socket : List Segment) : Nat := (stream socket).length + socket.length

/-- What is left of what was delivered. -/
def State.unread (state : State) : Nat := state.size - state.position + weight state.socket

/-- The steps that may be taken without a byte. -/
def stageRank : Stage → Nat
  | .type => 0
  | .bulkData _ _ _ | .inlineName _ => 4
  | _ => 3

def State.rank (state : State) : Nat :=
  match state.activity with
  | .idle => 0
  | .parsing stage => stageRank stage
  | .parsed _ => 2
  | .ready _ _ => 1

def State.effort (state : State) : Nat := 5 * state.unread + state.rank

theorem stageRank_le (stage : Stage) : stageRank stage ≤ 4 := by
  cases stage <;> simp [stageRank]

theorem rank_le (state : State) : state.rank ≤ 4 := by
  rw [State.rank]
  split
  · exact Nat.zero_le _
  · exact stageRank_le _
  · decide
  · decide

theorem weight_readSegments (socket : List Segment) (nbytes : Nat) :
    (readSegments socket nbytes).bytes.length + weight (readSegments socket nbytes).socket ≤
      weight socket := by
  have whole := congrArg List.length (readSegments_stream socket nbytes)
  rw [List.length_append] at whole
  have fewer : (readSegments socket nbytes).socket.length ≤ socket.length := by
    cases socket with
    | nil => exact Nat.le_refl 0
    | cons segment rest =>
        rw [readSegments]
        split
        · exact Nat.le_refl _
        · exact Nat.le_succ _
  rw [weight, weight]
  omega

/-- A read takes bytes or a segment, unless there is nothing. -/
theorem weight_readSegments_lt (socket : List Segment) {nbytes : Nat} (some_ : nbytes ≠ 0) :
    socket = [] ∨ weight (readSegments socket nbytes).socket < weight socket := by
  cases socket with
  | nil => exact .inl rfl
  | cons segment rest =>
      right
      rw [readSegments]
      split
      · rename_i enough
        simp only [weight, stream, List.flatMap_cons, List.length_append, List.length_drop,
          List.length_cons]
        omega
      · simp only [weight, stream, List.flatMap_cons, List.length_append, List.length_cons]
        omega

section Steps

variable {config : Config} {state next : State}

/-- What `take_n_bytes` leaves unread. -/
theorem takeNBytes_unread {n : Nat} {moved : Bool} {offset : Option Nat}
    (taken : takeNBytes config state n moved = some (next, offset)) :
    next.unread < state.unread ∨ (next.unread = state.unread ∧
      ((n = 0 ∧ offset ≠ none) ∨
        (offset = none ∧ state.size - state.position < n ∧ state.socket = [] ∧
          next.size = state.size ∧ next.position = state.position ∧ next.socket = []))) := by
  rcases takeNBytes_eq taken with ⟨there, rfl, rfl⟩ | ⟨missing, read, count, ⟨reads⟩, ended⟩
  · rcases Nat.eq_zero_or_pos n with rfl | some_
    · exact .inr ⟨rfl, .inl ⟨rfl, by simp⟩⟩
    · left
      change state.size - (state.position + n) + weight state.socket <
        state.size - state.position + weight state.socket
      omega
  · obtain ⟨socket, found⟩ := reads.found
    have less := weight_readSegments state.socket (n - (state.size - state.position))
    have size := reads.undisturbed.size
    have position := reads.undisturbed.position
    rw [← socket] at less
    rcases ended with ⟨_, rfl, rfl⟩ | ⟨some_, rfl, rfl⟩
    · rcases weight_readSegments_lt state.socket (Nat.sub_ne_zero_of_lt missing) with
        nothing | lost
      · rw [nothing] at socket
        refine .inr ⟨?_, .inr ⟨rfl, missing, nothing, size, position, socket⟩⟩
        rw [State.unread, State.unread, size, position, socket, nothing]
        rfl
      · left
        rw [← socket] at lost
        rw [State.unread, State.unread, size, position]
        omega
    · left
      change read.size + (n - (state.size - state.position)) - (state.position + n) +
        weight read.socket < _
      rw [State.unread]
      omega

theorem terminateStrings_socket {ranges : List Range}
    (terminated : terminateStrings state ranges = some next) : next.socket = state.socket := by
  induction ranges generalizing state with
  | nil =>
      cases terminated
      rfl
  | cons range rest inductionHypothesis =>
      rcases Option.bind_eq_some_iff.mp terminated with ⟨middle, first, later⟩
      obtain ⟨buffer, content, _, _, _, rfl⟩ := terminateString_eq first
      have socket := inductionHypothesis later
      exact socket

/-- What the rank is behind a parser's step. -/
def parsedRank : Parsed → Nat
  | .more stage => stageRank stage
  | .command _ _ _ => 2
  | .failed | .overflow => 0

/-- A parser that makes something of its bytes takes no others. -/
theorem Continues.effort {parsed : Parsed} (continues : Continues state parsed next) :
    next.unread = state.unread ∧ next.rank = parsedRank parsed := by
  cases continues with
  | more stage => exact ⟨rfl, rfl⟩
  | failed => exact ⟨rfl, rfl⟩
  | command inline ended resolved =>
      rename_i name args terminated
      have same : terminated.unread = state.unread := by
        split at ended
        · have undisturbed := (terminateStrings_framed ended).2
          rw [State.unread, State.unread, undisturbed.size, undisturbed.position,
            terminateStrings_socket ended]
        · cases ended
          rfl
      rcases Option.bind_eq_some_iff.mp resolved with ⟨buffer, _, resolved⟩
      rcases Option.bind_eq_some_iff.mp resolved with ⟨content, _, resolved⟩
      cases resolved
      exact ⟨same, rfl⟩

/-- A stage that asks for nothing, or gets nothing, leads to one that is closer to its bytes. -/
theorem parsedRank_lt {stage : Stage} {offset position size : Nat} {taken : Option Bytes}
    (without : (stage.request = 0 ∧ taken ≠ none) ∨ (taken = none ∧ stage ≠ .type)) :
    parsedRank (stage.next offset position size taken) < stageRank stage := by
  rcases without with ⟨zero, got⟩ | ⟨rfl, later⟩
  · cases stage with
    | bulkData todo done length =>
        obtain ⟨bytes, rfl⟩ := Option.ne_none_iff_exists'.mp got
        exact Nat.lt_succ_self 3
    | _ => cases zero
  · cases stage with
    | type => exact absurd rfl later
    | inlineName name =>
        change parsedRank (nameEnded name position size) < 4
        rw [nameEnded]
        split
        · exact Nat.lt_succ_self 3
        · rw [nameParsed]
          split
          · exact (by decide : 2 < 4)
          · exact Nat.lt_succ_self 3
    | bulkData => exact Nat.succ_pos 3
    | _ => exact Nat.succ_pos 2

theorem take_effort {moved : Bool} (calm : ¬state.Starving)
    (took : take config state moved = some next) : next.effort < state.effort := by
  obtain ⟨stage, taken, offset, buffer, content, parsing, bytes, _, _, continues⟩ := take_eq took
  obtain ⟨unread, rank⟩ := continues.effort
  have rankBefore : state.rank = stageRank stage := by rw [State.rank, parsing]
  have bound := rank_le next
  rcases takeNBytes_unread bytes with less | ⟨same, nothing⟩
  · rw [State.effort, State.effort, unread]
    omega
  · have smaller : next.rank < state.rank := by
      rw [rank, rankBefore]
      apply parsedRank_lt
      rcases nothing with ⟨none_, got⟩ | ⟨rfl, short, empty, _⟩
      · exact .inl ⟨none_, by simpa using got⟩
      · refine .inr ⟨rfl, ?_⟩
        rintro rfl
        exact calm ⟨parsing, Nat.le_of_sub_eq_zero (Nat.lt_one_iff.mp short), empty⟩
    rw [State.effort, State.effort, unread, same]
    omega

/-- The socket behind a refill is weighed with what it found. -/
theorem Refills.unread {read : State} {count : Option Nat}
    (refills : Refills config state read count) :
    count.getD 0 + weight read.socket ≤ weight state.socket := by
  have socket : refills.fresh.socket = state.socket := by
    obtain ⟨_, _, ⟨_, same⟩ | ⟨_, same⟩⟩ := refreshBuffer_eq refills.refreshed
    · rw [same]
    · rw [same]
      rfl
  obtain ⟨rest, found⟩ := readFromSocket_found refills.filled
  have less := weight_readSegments refills.fresh.socket refills.buffer.size
  rw [rest]
  rw [socket] at less found ⊢
  omega

theorem checkEnd_effort (checked : checkEnd config state = some next) :
    next.effort < state.effort := by
  obtain ⟨command, buffer, parsed, _, ways⟩ := checkEnd_eq checked
  have rank : state.rank = 2 := by rw [State.rank, parsed]
  rcases ways with ⟨_, rfl⟩ | ⟨_, _, rfl⟩ | ⟨_, _, read, count, ⟨refills⟩, rfl⟩
  · rw [State.effort, State.effort, rank]
    exact Nat.lt_succ_self _
  · rw [State.effort, State.effort, rank]
    exact Nat.lt_succ_self _
  · have less := refills.unread
    rw [State.effort, State.effort, State.unread, State.unread, rank]
    change 5 * (count.getD 0 - 0 + weight read.socket) + 1 < _
    omega

theorem deliver_effort {allocated : Bool} (delivered : deliver config state allocated = some next) :
    next.effort < state.effort := by
  obtain ⟨command, more, ready, delivers⟩ := deliver_eq delivered
  have rank : state.rank = 1 := by rw [State.rank, ready]
  have looped : ∀ {looped : State}, looped.unread = state.unread →
      looped.activity = (if more then .parsing .type else .idle) → looped.effort < state.effort := by
    intro looped unread activity
    have zero : looped.rank = 0 := by
      rw [State.rank, activity]
      cases more <;> rfl
    rw [State.effort, State.effort, unread, rank, zero]
    exact Nat.lt_succ_self _
  cases delivers with
  | locked => exact looped rfl rfl
  | unknown => exact looped rfl rfl
  | handed _ _ _ _ added =>
      split at added
      · rcases Option.bind_eq_some_iff.mp added with ⟨buffer, _, added⟩
        cases added
        exact looped rfl rfl
      · cases added
        rw [State.effort, State.effort, rank]
        exact Nat.lt_succ_self _

/-! ## Termination -/

/-- A reader that starves goes on to starve. -/
theorem take_starving {moved : Bool} (starving : state.Starving)
    (took : take config state moved = some next) : next.Starving := by
  obtain ⟨parsing, ended, nothing⟩ := starving
  obtain ⟨stage, taken, offset, buffer, content, same, bytes, _, _, continues⟩ := take_eq took
  rw [parsing] at same
  cases same
  have none_ : state.unread = 0 := by
    rw [State.unread, nothing, Nat.sub_eq_zero_of_le ended]
    rfl
  rcases takeNBytes_unread bytes with less | ⟨_, ⟨zero, _⟩ | ⟨rfl, _, _, size, position, socket⟩⟩
  · rw [none_] at less
    exact absurd less (Nat.not_lt_zero _)
  · cases zero
  · cases continues
    exact ⟨rfl, (congrArg₂ (· ≤ ·) size position).mpr ended, socket⟩

/-- `read_command` spins where it starves, and every other step uses something up. -/
theorem reader_spins (config : Config) :
    Spins (step config) Action.Reading Action.Elsewhere (fun state => state.activity = .idle)
      State.Starving State.effort where
  stopped state action next idle reading stepped := by
    cases action with
    | take moved =>
        obtain ⟨_, _, _, _, _, parsing, _⟩ := take_eq (Option.ite_none_right_eq_some.mp stepped).2
        rw [idle] at parsing
        cases parsing
    | checkEnd =>
        obtain ⟨_, _, parsed, _⟩ := checkEnd_eq (Option.ite_none_right_eq_some.mp stepped).2
        rw [idle] at parsed
        cases parsed
    | deliver allocated =>
        obtain ⟨_, _, ready, _⟩ := deliver_eq (Option.ite_none_right_eq_some.mp stepped).2
        rw [idle] at ready
        cases ready
    | _ => exact reading.elim
  kept state action next elsewhere stepped := by
    cases action with
    | execute index =>
        obtain ⟨transaction, _, released⟩ := Option.bind_eq_some_iff.mp stepped
        have same := (releaseBuffer_undisturbed released).1
        have activity : next.activity = state.activity := same.activity
        have size : next.size = state.size := same.size
        have position : next.position = state.position := same.position
        have drained := releaseBuffer_socket released
        have socket : next.socket = state.socket := drained
        rw [State.effort, State.effort, State.unread, State.unread, State.rank, State.rank,
          activity, size, position, socket]
        exact ⟨Iff.rfl, rfl⟩
    | lock locked =>
        cases stepped
        exact ⟨Iff.rfl, rfl⟩
    | _ => exact elsewhere.elim
  busy state starving idle := by
    rw [starving.1] at idle
    cases idle
  stays state action next starving reading stepped := by
    cases action with
    | take moved => exact take_starving starving (Option.ite_none_right_eq_some.mp stepped).2
    | checkEnd =>
        obtain ⟨_, _, parsed, _⟩ := checkEnd_eq (Option.ite_none_right_eq_some.mp stepped).2
        rw [starving.1] at parsed
        cases parsed
    | deliver allocated =>
        obtain ⟨_, _, ready, _⟩ := deliver_eq (Option.ite_none_right_eq_some.mp stepped).2
        rw [starving.1] at ready
        cases ready
    | _ => exact reading.elim
  usesUp state action next calm reading stepped := by
    cases action with
    | take moved => exact take_effort calm (Option.ite_none_right_eq_some.mp stepped).2
    | checkEnd => exact checkEnd_effort (Option.ite_none_right_eq_some.mp stepped).2
    | deliver allocated => exact deliver_effort (Option.ite_none_right_eq_some.mp stepped).2
    | _ => exact reading.elim

end Steps

end TellyDB.Server.Reader
