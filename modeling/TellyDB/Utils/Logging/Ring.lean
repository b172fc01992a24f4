import TellyDB.Utils.Logging

/-!
Owns the ring of log lines: which tests of the queue leave room for every call in progress, and
what the queue and `new_size` hold when no call is.
-/

namespace TellyDB.Utils.Logging

open Lib Lib.Transition Resp ThreadQueue

/-! ## The lines of a file -/

/-- The lines of a file that are ended, up to its first NUL. `line` stands before the bytes. -/
def linesOf : CString → Bytes → List CString
  | _, [] => []
  | line, byte :: rest =>
      if nonzero : byte ≠ 0 then
        let line := line.snoc byte nonzero
        if byte = 0x0a then line :: linesOf .empty rest else linesOf line rest
      else []

/-- The bytes of some lines. -/
def content (lines : List CString) : Bytes := (lines.map Subtype.val).flatten

@[simp] theorem content_nil : content [] = [] := rfl

@[simp] theorem content_cons (line : CString) (rest : List CString) :
    content (line :: rest) = line.val ++ content rest := rfl

@[simp] theorem content_append (one other : List CString) :
    content (one ++ other) = content one ++ content other := by
  rw [content, content, content, List.map_append, List.flatten_append]

/-- A file that the ring takes: ended lines without a NUL, at most as many as it holds, and not
up to the end of a page. -/
structure Fits (pageSize : Nat) (maxLogLines : Word) (file : Bytes) : Prop where
  text : 0 ∉ file
  ended : file = [] ∨ file.getLast? = some 0x0a
  few : file.count 0x0a ≤ maxLogLines.toNat
  mapped : file = [] ∨ ¬pageSize ∣ file.length

/-- The call found the queue full and has not popped. -/
def Writing.waits : Writing → Nat
  | .pop _ => 1
  | _ => 0

/-- The call found room, or made it, and has not pushed. -/
def Writing.owes : Writing → Nat
  | .subtract _ _ => 1
  | .push _ => 1
  | _ => 0

/-- The call tests next whether the queue is full. -/
def Writing.tests : Writing → Bool
  | .estimate _ => true
  | _ => false

/-- What the call has still to take from `new_size`. -/
def Writing.unsettled : Writing → Int
  | .subtract _ line => strlen line
  | .add message => -strlen message
  | _ => 0

section Calls

variable {τ : Type} [Fintype τ]

/-- How many calls wait for a line to pop. -/
def State.waiting (state : State τ) : Nat := weight Writing.waits state.threads

/-- How many calls have still to push. -/
def State.owing (state : State τ) : Nat := weight Writing.owes state.threads

/-- By how much `new_size` is too large. -/
def State.unsettled (state : State τ) : Int := weight Writing.unsettled state.threads

/-- A call finds room only where the calls that have still to push leave some, and finds the
queue full only where the calls that wait to pop leave a line. -/
def Spaced (state : State τ) : Action τ → Prop
  | .call _ _ => True
  | .advance thread _ =>
      (state.threads thread).tests = true →
        if state.lines.capacity ≤ estimateTqueueSize state.lines then
          state.waiting < (estimateTqueueSize state.lines).toNat
        else (estimateTqueueSize state.lines).toNat + state.owing < state.lines.capacity.toNat

instance (state : State τ) : ∀ action, Decidable (Spaced state action)
  | .call _ _ => isTrue trivial
  | .advance thread _ => inferInstanceAs (Decidable ((state.threads thread).tests = true →
      if state.lines.capacity ≤ estimateTqueueSize state.lines then
        state.waiting < (estimateTqueueSize state.lines).toNat
      else (estimateTqueueSize state.lines).toNat + state.owing < state.lines.capacity.toNat))

/-- No other call is between its test of the queue and its push when a call tests. -/
def Alone (state : State τ) : Action τ → Prop
  | .call _ _ => True
  | .advance thread _ =>
      (state.threads thread).tests = true →
        ∀ other, (state.threads other).waits = 0 ∧ (state.threads other).owes = 0

end Calls

/-! ## The invariant -/

section Invariant

variable {τ : Type} [Fintype τ] {state : State τ} {capacity : Word} {stored : List CString}

/-- The queue holds these lines, with room for the calls that owe one and a line for the calls
that wait for one. -/
structure Consistent (capacity : Word) (state : State τ) (stored : List CString) : Prop where
  running : state.aborted = false
  capacity_eq : state.lines.capacity = capacity
  stores : Stores state.lines (stored.map pointer)
  room : stored.length + state.owing ≤ capacity.toNat
  served : state.waiting ≤ stored.length
  size : state.newSize = (content stored).length + state.unsettled
  recent : stored <:+ state.log
  most : state.failed = 0 →
    (stored = state.log ∧ state.waiting = 0) ∨ capacity.toNat = stored.length + state.owing

theorem Consistent.estimate (consistent : Consistent capacity state stored) :
    (estimateTqueueSize state.lines).toNat = stored.length := by
  rw [consistent.stores.estimate, List.length_map]

variable [DecidableEq τ] {next : State τ} {stored' : List CString} {thread : τ}
  {before writing : Writing}

/-- One thread moves: its own part of the counts changes. -/
theorem consistent_of_moved (stands : state.threads thread = before)
    (moved : next.threads = Function.update state.threads thread writing)
    (running : next.aborted = false) (capacity_eq : next.lines.capacity = capacity)
    (stores : Stores next.lines (stored'.map pointer))
    (room : stored'.length + state.owing + writing.owes ≤ capacity.toNat + before.owes)
    (served : state.waiting + writing.waits ≤ stored'.length + before.waits)
    (size : next.newSize + before.unsettled =
      (content stored').length + state.unsettled + writing.unsettled)
    (recent : stored' <:+ next.log)
    (most : next.failed = 0 → (stored' = next.log ∧ state.waiting + writing.waits = before.waits) ∨
      capacity.toNat + before.owes = stored'.length + state.owing + writing.owes) :
    Consistent capacity next stored' := by
  have waiting : next.waiting + before.waits = state.waiting + writing.waits := by
    rw [State.waiting, moved, ← stands]
    exact weight_update Writing.waits state.threads thread writing
  have owing : next.owing + before.owes = state.owing + writing.owes := by
    rw [State.owing, moved, ← stands]
    exact weight_update Writing.owes state.threads thread writing
  have unsettled : next.unsettled + before.unsettled =
      state.unsettled + writing.unsettled := by
    rw [State.unsettled, moved, ← stands]
    exact weight_update Writing.unsettled state.threads thread writing
  refine ⟨running, capacity_eq, stores, by omega, by omega, by omega, recent, fun none => ?_⟩
  rcases most none with ⟨all, nobody⟩ | full
  · exact Or.inl ⟨all, by omega⟩
  · exact Or.inr (by omega)

/-- A call that waits is counted. -/
theorem waits_le_waiting (stands : state.threads thread = before) :
    before.waits ≤ state.waiting := by
  have moved := weight_update Writing.waits state.threads thread .idle
  rw [stands] at moved
  exact (Nat.le_add_left _ _).trans_eq moved

/-- A call that owes a line is counted. -/
theorem owes_le_owing (stands : state.threads thread = before) : before.owes ≤ state.owing := by
  have moved := weight_update Writing.owes state.threads thread .idle
  rw [stands] at moved
  exact (Nat.le_add_left _ _).trans_eq moved

/-- The test on the queue decides whether a line is taken out first. -/
theorem Consistent.tested (consistent : Consistent capacity state stored) {message : CString}
    (stands : state.threads thread = .estimate message) {allocated : Bool}
    (spaced : Spaced state (.advance thread allocated)) :
    ∃ next stored', Logging.advance state thread allocated = some next ∧
      Consistent capacity next stored' := by
  have counted := consistent.estimate
  obtain ⟨running, capacity_eq, stores, room, served, size, recent, most⟩ := consistent
  rw [Logging.advance]
  simp only [Spaced, stands, Writing.tests, BitVec.le_def, counted, capacity_eq,
    forall_const] at spaced ⊢
  split
  · next full =>
      rw [if_pos full] at spaced
      refine ⟨_, stored, rfl, consistent_of_moved stands rfl running capacity_eq stores
        room spaced ?_ recent fun _ => Or.inr ?_⟩
      · exact congrArg (· + 0) size
      · show capacity.toNat = stored.length + state.owing
        omega
  · next free =>
      rw [if_neg free] at spaced
      refine ⟨_, stored, rfl, consistent_of_moved stands rfl running capacity_eq stores
        spaced served ?_ recent fun none => ?_⟩
      · exact congrArg (· + 0) size
      · rcases most none with ⟨all, nobody⟩ | full
        · exact Or.inl ⟨all, nobody⟩
        · omega

/-- A call that waits for a line finds one. -/
theorem Consistent.popped (consistent : Consistent capacity state stored) {message : CString}
    (stands : state.threads thread = .pop message) (allocated : Bool) :
    ∃ next stored', Logging.advance state thread allocated = some next ∧
      Consistent capacity next stored' := by
  obtain ⟨running, capacity_eq, stores, room, served, size, recent, most⟩ := consistent
  have one : 1 ≤ state.waiting := waits_le_waiting stands
  obtain ⟨line, rest, rfl⟩ := List.exists_cons_of_length_pos (Nat.lt_of_lt_of_le one served)
  obtain ⟨lines, popped, kept⟩ := stores.pop
  simp only [List.length_cons, content_cons, List.length_append] at room served size most
  simp only [Logging.advance, stands, popped, Option.bind_eq_bind, Option.bind_some]
  refine ⟨_, rest, rfl, consistent_of_moved stands rfl running
    ((popTqueue_capacity popped).trans capacity_eq) kept ?_ ?_ ?_
    ((List.suffix_cons line rest).trans recent) fun none => Or.inr ?_⟩
  all_goals simp only [Writing.owes, Writing.waits, Writing.unsettled, strlen, pointer]
  · omega
  · omega
  · show state.newSize + 0 = _
    push_cast at size
    omega
  · have full := most none
    omega

/-- A call that owes a line has room for it. -/
theorem Consistent.pushed (consistent : Consistent capacity state stored) {message : CString}
    (stands : state.threads thread = .push message) :
    ∃ next stored', Logging.advance state thread true = some next ∧
      Consistent capacity next stored' := by
  obtain ⟨running, capacity_eq, stores, room, served, size, recent, most⟩ := consistent
  have one : 1 ≤ state.owing := owes_le_owing stands
  obtain ⟨lines, pushed, kept⟩ := stores.push
    (by rw [List.length_map, capacity_eq]; omega) (pointer message)
  rw [← List.map_singleton, ← List.map_append] at kept
  have latest : stored ++ [message] <:+ state.log ++ [message] := by
    obtain ⟨dropped, same⟩ := recent
    exact ⟨dropped, by rw [← List.append_assoc, same]⟩
  simp only [Logging.advance, stands, pushed, Option.bind_eq_bind, Option.bind_some, if_true]
  refine ⟨_, stored ++ [message], rfl, consistent_of_moved stands rfl running
    ((pushTqueue_capacity pushed).trans capacity_eq) kept ?_ ?_ ?_ latest fun none => ?_⟩
  all_goals simp only [Writing.owes, Writing.waits, Writing.unsettled, strlen,
    List.length_append, List.length_singleton, content_append, content_cons, content_nil,
    List.append_nil]
  · omega
  · omega
  · show state.newSize + 0 = _
    push_cast
    omega
  · rcases most none with ⟨all, nobody⟩ | full
    · exact Or.inl ⟨congrArg (· ++ [message]) all, nobody⟩
    · exact Or.inr (by omega)

/-- Every call goes on, and what is said of the queue stays true. -/
theorem Consistent.advance (consistent : Consistent capacity state stored) {allocated : Bool}
    (spaced : Spaced state (.advance thread allocated)) (working : state.threads thread ≠ .idle) :
    ∃ next stored', Logging.advance state thread allocated = some next ∧
      Consistent capacity next stored' := by
  cases stands : state.threads thread with
  | idle => exact absurd stands working
  | estimate message => exact consistent.tested stands spaced
  | pop message => exact consistent.popped stands allocated
  | subtract message line =>
      obtain ⟨running, capacity_eq, stores, room, served, size, recent, most⟩ := consistent
      rw [Logging.advance, stands]
      refine ⟨_, stored, rfl, consistent_of_moved stands rfl running capacity_eq stores
        (Nat.succ_le_succ room) served ?_ recent fun none => ?_⟩
      · show state.newSize - strlen line + strlen line = _ + 0
        rw [size]
        omega
      · exact (most none).imp id (congrArg (· + 1))
  | push message =>
      cases allocated with
      | false =>
          obtain ⟨running, capacity_eq, stores, room, served, size, recent, most⟩ := consistent
          rw [Logging.advance, stands]
          exact ⟨_, stored, rfl, consistent_of_moved stands rfl running capacity_eq stores
            (Nat.le_succ_of_le room) served (congrArg (· + 0) size) recent
              fun none => absurd none (Nat.succ_ne_zero _)⟩
      | true => exact consistent.pushed stands
  | add message =>
      obtain ⟨running, capacity_eq, stores, room, served, size, recent, most⟩ := consistent
      rw [Logging.advance, stands]
      refine ⟨_, stored, rfl, consistent_of_moved stands rfl running capacity_eq stores
        room served ?_ recent most⟩
      show state.newSize + strlen message + -strlen message = _ + 0
      rw [size]
      omega

theorem Consistent.step {action : Action τ} (consistent : Consistent capacity state stored)
    (spaced : Spaced state action) (stepped : Logging.step state action = some next) :
    ∃ stored', Consistent capacity next stored' := by
  simp only [Logging.step, consistent.running, Bool.false_eq_true, if_false] at stepped
  cases action with
  | advance thread allocated =>
      have working : state.threads thread ≠ .idle := by
        intro idle
        simp only [Logging.advance, idle] at stepped
        cases stepped
      obtain ⟨reached, stored', went, kept⟩ := consistent.advance spaced working
      have same : reached = next := Option.some.inj (went.symm.trans stepped)
      exact ⟨stored', same ▸ kept⟩
  | call thread message =>
      dsimp only at stepped
      split at stepped
      · next stands =>
          cases stepped
          exact ⟨stored, consistent_of_moved stands rfl consistent.running consistent.capacity_eq
            consistent.stores consistent.room consistent.served
            (congrArg (· + 0) consistent.size) consistent.recent consistent.most⟩
      · cases stepped

/-! ## Saving -/

/-- The bytes of the file can be used. -/
theorem mapped_of_lt {pageSize size place : Nat} (inside : place < size) :
    mapped pageSize size place = true := by
  have some_size : size ≠ 0 := Nat.ne_of_gt (Nat.zero_lt_of_lt inside)
  have before : place ≤ size - 1 := Nat.le_sub_one_of_lt inside
  rw [mapped, decide_eq_true some_size, decide_eq_true (Nat.div_le_div_right before)]
  rfl

/-- The byte behind the file can be used if the file does not end with a page. -/
theorem mapped_end_iff {pageSize size : Nat} :
    mapped pageSize size size = true ↔ ¬pageSize ∣ size := by
  cases size with
  | zero => simp [mapped]
  | succ size =>
      simp only [mapped, Bool.and_eq_true, decide_eq_true_eq, Nat.add_sub_cancel, Nat.succ_div]
      split
      · next whole => simp [whole]
      · next part => simp [part]

/-- The loop takes out all lines, when the file has room for them. -/
theorem saveLines_stored {lines : Lines} (stores : Stores lines (stored.map pointer))
    {pageSize size turns written : Nat} (enough : stored.length < turns)
    (fits : written + (content stored).length ≤ size) :
    saveLines pageSize size turns written lines = some (content stored) := by
  induction stored generalizing turns written lines with
  | nil =>
      obtain ⟨more, rfl⟩ := Nat.exists_eq_add_one_of_ne_zero (Nat.ne_of_gt enough)
      have empty : estimateTqueueSize lines = 0 := BitVec.eq_of_toNat_eq stores.estimate
      rw [saveLines, if_pos empty]
      rfl
  | cons line rest inductionHypothesis =>
      have some_fuel := Nat.ne_of_gt (Nat.zero_lt_of_lt enough)
      obtain ⟨more, rfl⟩ := Nat.exists_eq_add_one_of_ne_zero some_fuel
      obtain ⟨next, popped, kept⟩ := stores.pop
      have some_left : estimateTqueueSize lines ≠ 0 := by
        intro empty
        have counted := stores.estimate
        rw [empty, List.length_map] at counted
        cases counted
      rw [content_cons, List.length_append] at fits
      have copied : strlen line = 0 ∨ mapped pageSize size (written + strlen line - 1) = true := by
        rcases Nat.eq_zero_or_pos (strlen line) with nothing | positive
        · exact Or.inl nothing
        · apply Or.inr
          apply mapped_of_lt
          unfold strlen at positive ⊢
          omega
      have rest_fits : written + strlen line + (content rest).length ≤ size := by
        unfold strlen
        omega
      rw [saveLines, if_neg some_left, popped]
      have others := inductionHypothesis kept (Nat.lt_of_succ_lt_succ enough) rest_fits
      refine (if_pos copied).trans ?_
      exact congrArg (fun bytes => bytes.bind fun bytes => some (line.val ++ bytes)) others

/-- No call is in progress, and the file would not end with a page (or be empty). -/
def Saveable (pageSize : Nat) (state : State τ) : Prop :=
  (∀ thread, state.threads thread = .idle) → ¬(pageSize : Int) ∣ state.newSize

/-! ## Runs -/

/-- The queue holds these lines, which are the last ones of all, as many as fit unless memory ran
out, and their size. -/
structure Holds (state : State τ) (stored : List CString) : Prop where
  holds : Stores state.lines (stored.map pointer)
  few : stored.length ≤ state.lines.capacity.toNat
  recent : stored <:+ state.log
  most : state.failed = 0 → stored.length = min state.lines.capacity.toNat state.log.length
  size : state.newSize = (content stored).length

/-- Saving writes these lines over exactly the size that it reserves. -/
structure Keeps (pageSize : Nat) (state : State τ) (stored : List CString) : Prop
    extends Holds state stored where
  saved : ∀ turns, stored.length < turns →
    saveAndCloseLogs pageSize turns state =
      some (.written (content stored).length (content stored))

/-- No assertion has failed, every call goes on, and the queue is in order whenever no call is in
progress. -/
structure Working (maxLogLines : Word) (state : State τ) : Prop where
  running : state.aborted = false
  capacity_eq : state.lines.capacity = maxLogLines
  proceeds : ∀ thread allocated, state.threads thread ≠ .idle →
    ∃ next, Logging.step state (.advance thread allocated) = some next
  quiet : (∀ thread, state.threads thread = .idle) → ∃ stored, Holds state stored

/-- The logs work, and are saved whenever no call is in progress. -/
structure Sound (pageSize : Nat) (maxLogLines : Word) (state : State τ) : Prop
    extends Working maxLogLines state where
  saves : (∀ thread, state.threads thread = .idle) → ∃ stored, Keeps pageSize state stored

/-- The logs before the first call. -/
def start (pageSize : Nat) (maxLogLines : Word) (file : Bytes)
    (memory : Nat → ThreadQueueSlot CString 1) : Option (State τ) :=
  (initializeLogs pageSize maxLogLines file memory).map fun loaded =>
    ⟨loaded.1, loaded.2, fun _ => .idle, false, linesOf .empty file, 0⟩

omit [DecidableEq τ] in
theorem Consistent.holds (consistent : Consistent capacity state stored)
    (idle : ∀ thread, state.threads thread = .idle) : Holds state stored := by
  have owing : state.owing = 0 := weight_eq_zero fun thread => by rw [idle thread]; rfl
  have settled : state.unsettled = 0 := weight_eq_zero fun thread => by rw [idle thread]; rfl
  have size : state.newSize = (content stored).length := by
    rw [consistent.size, settled, Int.add_zero]
  have room := consistent.room
  rw [owing, Nat.add_zero, ← consistent.capacity_eq] at room
  refine ⟨consistent.stores, room, consistent.recent, fun none => ?_, size⟩
  have shorter := consistent.recent.length_le
  rcases consistent.most none with ⟨all, -⟩ | full
  · rw [← all]
    exact (Nat.min_eq_right room).symm
  · rw [consistent.capacity_eq] at room ⊢
    omega

theorem Consistent.working (consistent : Consistent capacity state stored) :
    Working capacity state := by
  refine ⟨consistent.running, consistent.capacity_eq, ?_,
    fun idle => ⟨stored, consistent.holds idle⟩⟩
  intro thread allocated working
  simp only [Logging.step, consistent.running, Bool.false_eq_true, if_false]
  by_cases tests : ∃ message, state.threads thread = .estimate message
  · obtain ⟨message, stands⟩ := tests
    simp only [Logging.advance, stands]
    split
    · exact ⟨_, rfl⟩
    · exact ⟨_, rfl⟩
  · have spaced : Spaced state (.advance thread allocated) := by
      intro testing
      cases stands : state.threads thread with
      | estimate message => exact absurd ⟨message, stands⟩ tests
      | _ =>
          rw [stands] at testing
          cases testing
    obtain ⟨next, -, went, -⟩ := consistent.advance spaced working
    exact ⟨next, went⟩

theorem Consistent.sound {pageSize : Nat} (consistent : Consistent capacity state stored)
    (saveable : Saveable pageSize state) : Sound pageSize capacity state := by
  refine ⟨consistent.working, fun idle => ⟨stored, consistent.holds idle, fun turns enough => ?_⟩⟩
  have size := (consistent.holds idle).size
  have partial_page : ¬pageSize ∣ (content stored).length := by
    have apart := saveable idle
    rwa [size, Int.natCast_dvd_natCast] at apart
  have fits : 0 + (content stored).length ≤ (content stored).length :=
    (Nat.zero_add _).le
  have negates : state.newSize = Int.ofNat (content stored).length := size
  rw [saveAndCloseLogs, negates]
  simp only [saveLines_stored consistent.stores enough fits, Option.bind_eq_bind,
    Option.bind_some]
  exact if_pos (mapped_end_iff.mpr partial_page)

omit [DecidableEq τ] in
/-- A call that is alone between its test and its push is spaced. -/
theorem Consistent.spaced {action : Action τ} (consistent : Consistent capacity state stored)
    (alone : Alone state action) : Spaced state action := by
  cases action with
  | call thread message => trivial
  | advance thread allocated =>
      intro testing
      have others := alone testing
      have waiting : state.waiting = 0 := weight_eq_zero fun other => (others other).1
      have owing : state.owing = 0 := weight_eq_zero fun other => (others other).2
      obtain ⟨k, power⟩ := consistent.stores.power
      have positive := Nat.two_pow_pos k
      split
      · next full =>
          rw [BitVec.le_def] at full
          omega
      · next free =>
          rw [BitVec.le_def] at free
          omega

/-- Calls whose tests and pushes do not overlap are spaced all along. -/
theorem Consistent.spaced_run {actions : List (Action τ)}
    (consistent : Consistent capacity state stored)
    (alone : Guarded Logging.step Alone state actions) :
    Guarded Logging.step Spaced state actions := by
  induction actions generalizing state stored with
  | nil => trivial
  | cons action rest inductionHypothesis =>
      have spaced := consistent.spaced alone.1
      refine ⟨spaced, fun next stepped => ?_⟩
      obtain ⟨stored', kept⟩ := consistent.step spaced stepped
      exact inductionHypothesis kept (alone.2 next stepped)

end Invariant

/-! ## Two threads -/

def sampleMessage : CString := ⟨text "[01 Jan 2025 00:00:00 / INFO] | on\n", by decide +kernel⟩

/-- Two calls, one after the other; the second one finds the ring full. -/
def inTurn : List (Action Bool) :=
  .call true sampleMessage :: List.replicate 3 (.advance true true) ++
    .call false sampleMessage :: List.replicate 5 (.advance false true)

end TellyDB.Utils.Logging
