import TellyDB.Lib.References
import TellyDB.Lib.Transition
import Mathlib.Data.BitVec

/-!
Owns the reference counts of the query buffers: the I/O threads take references for the
transactions they read and replace buffers that are in use, while other threads give up the
references of transactions and clients. One step is one atomic operation on a count, with what
follows it in the same thread alone.
-/

namespace TellyDB.Server.QueryBuffers

open Lib Lib.Transition

/-! ## Buffers -/

/-- `QueryBuffer`, with how often it was freed. -/
structure QueryBuffer where
  refcount : BitVec 32
  freed : Nat
deriving DecidableEq

namespace QueryBuffer

/-- A new buffer: `atomic_init(&new_buf->refcount, 1)`. -/
def create : QueryBuffer := ⟨1, 0⟩

/-- The increment of `prepare_transaction`. -/
def retain (buffer : QueryBuffer) : QueryBuffer :=
  { buffer with refcount := buffer.refcount + 1 }

/-- The decrement of `read_command`, which does not look at the count that it leaves. -/
def drop (buffer : QueryBuffer) : QueryBuffer :=
  { buffer with refcount := buffer.refcount - 1 }

/-- The decrement of `remove_transaction_block` and `free_client`, which free the buffer if the
count was one. -/
def release (buffer : QueryBuffer) : QueryBuffer where
  refcount := buffer.refcount - 1
  freed := if buffer.refcount = 1 then buffer.freed + 1 else buffer.freed

end QueryBuffer

/-! ## The threads -/

/-- Where the I/O thread of a client stands in `read_command`: outside, before the test of the
count, between the test and the decrement, or behind. -/
inductive Reading where
  | outside
  | checking
  | replacing
  | reading
deriving DecidableEq

/-- A client slot. `connected` is `id != -1`. -/
structure Client where
  readBuf : Nat
  connected : Bool
  reading : Reading
deriving DecidableEq

/-- The buffers by the order of their allocation, the clients, and the buffers that the pending
transactions refer to. -/
structure State (κ : Type) where
  buffers : Nat → QueryBuffer
  allocated : Nat
  clients : κ → Client
  pending : List Nat

inductive Action (κ : Type) where
  /-- `add_client`. -/
  | connect (client : κ)
  /-- `read_command` is called. -/
  | read (client : κ)
  /-- The test `refcount > 1`, at the start or where the buffer is used up. -/
  | load (client : κ)
  /-- The decrement, and the new buffer. -/
  | replace (client : κ)
  /-- `prepare_transaction`. -/
  | retain (client : κ)
  /-- `read_command` returns. -/
  | leave (client : κ)
  /-- `free_client`, by the I/O thread or by another one, without its waiting block. -/
  | disconnect (client : κ)
  /-- One transaction of a block in `remove_transaction_block`, by any thread. -/
  | release (index : Nat)

variable {κ : Type} [DecidableEq κ]

/-- No client has connected yet. -/
def initial : State κ where
  buffers _ := ⟨0, 0⟩
  allocated := 0
  clients _ := ⟨0, false, .outside⟩
  pending := []

namespace State

/-- Replaces one client. -/
def setClient (state : State κ) (client : κ) (next : Client) : State κ :=
  { state with clients := Function.update state.clients client next }

/-- Changes one buffer. -/
def modify (state : State κ) (buffer : Nat) (change : QueryBuffer → QueryBuffer) : State κ :=
  { state with
    buffers := Function.update state.buffers buffer (change (state.buffers buffer)) }

/-- Allocates the next buffer. -/
def allocate (state : State κ) : State κ :=
  { state with
    buffers := Function.update state.buffers state.allocated .create
    allocated := state.allocated + 1 }

end State

/-- One step. -/
def step (state : State κ) : Action κ → Option (State κ)
  | .connect client =>
      let slot := state.clients client
      if slot.connected then none
      else some (state.allocate.setClient client
        { slot with readBuf := state.allocated, connected := true })
  | .read client =>
      let slot := state.clients client
      if slot.connected ∧ slot.reading = .outside then
        some (state.setClient client { slot with reading := .checking })
      else none
  | .load client =>
      let slot := state.clients client
      if slot.reading = .checking ∨ slot.reading = .reading then
        let shared := 1 < (state.buffers slot.readBuf).refcount
        some (state.setClient client
          { slot with reading := if shared then .replacing else .reading })
      else none
  | .replace client =>
      let slot := state.clients client
      if slot.reading = .replacing then
        some ((state.modify slot.readBuf .drop).allocate.setClient client
          { slot with readBuf := state.allocated, reading := .reading })
      else none
  | .retain client =>
      let slot := state.clients client
      if slot.reading = .reading then
        some { state.modify slot.readBuf .retain with
          pending := state.pending ++ [slot.readBuf] }
      else none
  | .leave client =>
      let slot := state.clients client
      if slot.reading = .reading then
        some (state.setClient client { slot with reading := .outside })
      else none
  | .disconnect client =>
      let slot := state.clients client
      if slot.connected then
        some ((state.modify slot.readBuf .release).setClient client
          { slot with connected := false })
      else none
  | .release index =>
      match state.pending[index]? with
      | none => none
      | some buffer => some { state.modify buffer .release with
          pending := state.pending.eraseIdx index }

/-! ## References -/

/-- The buffer that a connected client refers to. -/
def State.held (state : State κ) (client : κ) : Option Nat :=
  if (state.clients client).connected then some (state.clients client).readBuf else none

/-- A client or a pending transaction refers to the buffer. -/
def State.Refers (state : State κ) (buffer : Nat) : Prop :=
  (∃ client, state.held client = some buffer) ∨ buffer ∈ state.pending

/-- Every buffer is freed once after its last reference was given up, and not before. -/
structure Reclaimed (state : State κ) : Prop where
  kept : ∀ buffer < state.allocated, state.Refers buffer → (state.buffers buffer).freed = 0
  freed : ∀ buffer < state.allocated, ¬state.Refers buffer → (state.buffers buffer).freed = 1

/-- A buffer that is replaced has another reference when the count is decremented, no client is
freed while an I/O thread reads its commands, and the count has room for a transaction. -/
def Orderly (state : State κ) : Action κ → Prop
  | .replace client => 1 < (state.buffers (state.clients client).readBuf).refcount
  | .disconnect client => (state.clients client).reading = .outside
  | .retain client => (state.buffers (state.clients client).readBuf).refcount.toNat + 1 < 2 ^ 32
  | _ => True

instance (state : State κ) (action : Action κ) : Decidable (Orderly state action) :=
  match action with
  | .replace _ => inferInstanceAs (Decidable (_ < _))
  | .disconnect _ => inferInstanceAs (Decidable (_ = _))
  | .retain _ => inferInstanceAs (Decidable (_ < _))
  | .connect _ | .read _ | .load _ | .leave _ | .release _ => inferInstanceAs (Decidable True)

/-! ## Counts -/

/-- The buffer has so many references, and was freed if it has none. -/
structure QueryBuffer.Fits (buffer : QueryBuffer) (references : Nat) : Prop where
  counted : buffer.refcount.toNat = references
  freed : buffer.freed = if references = 0 then 1 else 0

namespace QueryBuffer

variable {buffer : QueryBuffer} {count : Nat}

theorem Fits.create : create.Fits 1 := ⟨rfl, rfl⟩

theorem Fits.retain (fits : buffer.Fits count) (held : count ≠ 0)
    (room : buffer.refcount.toNat + 1 < 2 ^ 32) : buffer.retain.Fits (count + 1) where
  counted := by
    rw [QueryBuffer.retain, BitVec.toNat_add, ← fits.counted]
    exact Nat.mod_eq_of_lt room
  freed := by
    rw [QueryBuffer.retain, fits.freed, if_neg held, if_neg (Nat.succ_ne_zero count)]

theorem toNat_pred (fits : buffer.Fits (count + 1)) : (buffer.refcount - 1).toNat = count := by
  have counted := fits.counted
  bv_omega

theorem Fits.release (fits : buffer.Fits (count + 1)) : buffer.release.Fits count where
  counted := toNat_pred fits
  freed := by
    have last : buffer.refcount = 1 ↔ count = 0 := by
      have counted := fits.counted
      bv_omega
    simp only [QueryBuffer.release, fits.freed, Nat.succ_ne_zero, last, if_false]

theorem Fits.drop (fits : buffer.Fits (count + 1)) (shared : 1 < buffer.refcount) :
    buffer.drop.Fits count where
  counted := toNat_pred fits
  freed := by
    have others : count ≠ 0 := by
      have counted := fits.counted
      bv_omega
    rw [QueryBuffer.drop, fits.freed, if_neg (Nat.succ_ne_zero count), if_neg others]

end QueryBuffer

section Steps

variable [Fintype κ] {state next : State κ}

/-- The references to a buffer. -/
def State.references (state : State κ) (buffer : Nat) : Nat :=
  Lib.references state.held state.pending buffer

/-- Every count is the number of references. -/
structure Counted (state : State κ) : Prop where
  fits : ∀ buffer < state.allocated, (state.buffers buffer).Fits (state.references buffer)
  fresh : ∀ buffer, state.allocated ≤ buffer → state.references buffer = 0
  inside : ∀ client, (state.clients client).reading ≠ .outside →
    (state.clients client).connected = true

omit [Fintype κ] in
/-- What a client holds after its slot was written. -/
theorem held_setClient (client : κ) (slot : Client) :
    (state.setClient client slot).held = Function.update state.held client
      (if slot.connected then some slot.readBuf else none) := by
  funext other
  by_cases same : other = client
  · subst same
    simp [State.held, State.setClient]
  · simp [State.held, State.setClient, Function.update_of_ne same]

omit [DecidableEq κ] in
theorem references_eq_zero_iff (buffer : Nat) :
    state.references buffer = 0 ↔ ¬state.Refers buffer := by
  rw [State.references, references_eq_zero, State.Refers, not_or, not_exists]

omit [DecidableEq κ] in
theorem Counted.reclaimed (counted : Counted state) : Reclaimed state where
  kept buffer allocated refers := by
    have some : state.references buffer ≠ 0 := fun none =>
      (references_eq_zero_iff buffer).mp none refers
    rw [(counted.fits buffer allocated).freed, if_neg some]
  freed buffer allocated unreferred := by
    rw [(counted.fits buffer allocated).freed,
      if_pos ((references_eq_zero_iff buffer).mpr unreferred)]

omit [DecidableEq κ] in
/-- A buffer with a reference has been allocated. -/
theorem Counted.allocated (counted : Counted state) {buffer : Nat}
    (some : state.references buffer ≠ 0) : buffer < state.allocated := by
  by_contra unallocated
  exact some (counted.fresh buffer (Nat.le_of_not_lt unallocated))

/-- The references after a client slot was written. -/
theorem references_setClient (state : State κ) (client : κ) (slot : Client) (buffer : Nat) :
    (state.setClient client slot).references buffer +
        (if state.held client = some buffer then 1 else 0) =
      state.references buffer +
        if (if slot.connected then some slot.readBuf else none) = some buffer then 1 else 0 := by
  rw [State.references, held_setClient]
  exact references_update client _

omit [Fintype κ] in
theorem inside_setClient {client : κ} {slot : Client}
    (inside : ∀ other, (state.clients other).reading ≠ .outside →
      (state.clients other).connected = true)
    (written : slot.reading ≠ .outside → slot.connected = true) :
    ∀ other, ((state.setClient client slot).clients other).reading ≠ .outside →
      ((state.setClient client slot).clients other).connected = true := by
  intro other
  by_cases same : other = client
  · subst same
    simpa [State.setClient] using written
  · simpa [State.setClient, Function.update_of_ne same] using inside other

/-- A client that moves on in `read_command` changes no reference. -/
theorem Counted.moved (counted : Counted state) {client : κ} (phase : Reading)
    (connected : (state.clients client).connected = true) :
    Counted (state.setClient client { state.clients client with reading := phase }) := by
  have held : (state.setClient client { state.clients client with reading := phase }).held =
      state.held := by
    rw [held_setClient]
    exact Function.update_eq_self ..
  have same : ∀ buffer, (state.setClient client
      { state.clients client with reading := phase }).references buffer =
        state.references buffer := by
    intro buffer
    rw [State.references, held]
    rfl
  constructor
  case fits =>
    intro buffer allocated
    rw [same]
    exact counted.fits buffer allocated
  case fresh =>
    intro buffer unallocated
    rw [same]
    exact counted.fresh buffer unallocated
  case inside => exact inside_setClient counted.inside fun _ => connected

/-- The new buffer of a client has one reference. -/
theorem Counted.taken (counted : Counted state) {client : κ} (phase : Reading)
    (free : state.held client = none) :
    Counted (state.allocate.setClient client ⟨state.allocated, true, phase⟩) := by
  have taken : ∀ buffer,
      (state.allocate.setClient client ⟨state.allocated, true, phase⟩).references buffer =
        state.references buffer + if state.allocated = buffer then 1 else 0 := by
    intro buffer
    have moved := references_setClient (state.allocate) client ⟨state.allocated, true, phase⟩ buffer
    have nothing : state.allocate.held client = none := free
    simp only [nothing, reduceCtorEq, if_false, Nat.add_zero, if_true, Option.some.injEq] at moved
    exact moved
  constructor
  case fits =>
    intro buffer allocated
    rw [taken]
    by_cases new : buffer = state.allocated
    · subst new
      rw [counted.fresh _ (Nat.le_refl _), if_pos rfl]
      simpa [State.allocate, State.setClient] using QueryBuffer.Fits.create
    · have old : buffer < state.allocated :=
        Nat.lt_of_le_of_ne (Nat.le_of_lt_succ allocated) new
      rw [if_neg (Ne.symm new)]
      simpa [State.allocate, State.setClient, Function.update_of_ne new] using
        counted.fits buffer old
  case fresh =>
    intro buffer unallocated
    have later : state.allocated < buffer := unallocated
    rw [taken, if_neg (Nat.ne_of_lt later), counted.fresh buffer later.le]
  case inside => exact inside_setClient counted.inside fun _ => rfl

omit [DecidableEq κ] in
/-- One buffer changed with its references. -/
theorem Counted.changed (counted : Counted state) {buffer : Nat} {written : QueryBuffer}
    (allocated : buffer < state.allocated) (same : next.allocated = state.allocated)
    (buffers : next.buffers = Function.update state.buffers buffer written)
    (others : ∀ other, other ≠ buffer → next.references other = state.references other)
    (fits : written.Fits (next.references buffer))
    (inside : ∀ client, (next.clients client).reading ≠ .outside →
      (next.clients client).connected = true) : Counted next where
  fits other bound := by
    rw [buffers]
    by_cases equal : other = buffer
    · rw [equal, Function.update_self]
      exact fits
    · rw [Function.update_of_ne equal, others other equal]
      exact counted.fits other (same ▸ bound)
  fresh other unallocated := by
    rw [same] at unallocated
    rw [others other (Nat.ne_of_gt (Nat.lt_of_lt_of_le allocated unallocated))]
    exact counted.fresh other unallocated
  inside := inside

/-- A client gives up its buffer. -/
theorem Counted.givenUp (counted : Counted state) {client : κ} {buffer : Nat}
    {change : QueryBuffer → QueryBuffer} (held : state.held client = some buffer)
    (fits : ∀ count, (state.buffers buffer).Fits (count + 1) →
      (change (state.buffers buffer)).Fits count) :
    Counted ((state.modify buffer change).setClient client ⟨buffer, false, .outside⟩) := by
  have moved : ∀ other, ((state.modify buffer change).setClient client
      ⟨buffer, false, .outside⟩).references other + (if buffer = other then 1 else 0) =
        state.references other := by
    intro other
    have moved := references_setClient (state.modify buffer change) client
      ⟨buffer, false, .outside⟩ other
    have holds : (state.modify buffer change).held client = some buffer := held
    simp only [holds, Option.some.injEq, Bool.false_eq_true, if_false, reduceCtorEq,
      Nat.add_zero] at moved
    exact moved
  have one := moved buffer
  rw [if_pos rfl] at one
  have allocated : buffer < state.allocated := counted.allocated (by omega)
  apply counted.changed allocated
  case same => rfl
  case buffers => rfl
  case others =>
    intro other different
    have unmoved := moved other
    rwa [if_neg (Ne.symm different)] at unmoved
  case fits =>
    apply fits
    rw [one]
    exact counted.fits buffer allocated
  case inside => exact inside_setClient counted.inside (by simp)

omit [DecidableEq κ] in
/-- A pending transaction gives up its buffer. -/
theorem Counted.released (counted : Counted state) {index buffer : Nat}
    (found : state.pending[index]? = some buffer) :
    Counted { state.modify buffer .release with pending := state.pending.eraseIdx index } := by
  have erased : ∀ other, State.references { state.modify buffer .release with
      pending := state.pending.eraseIdx index } other + (if buffer = other then 1 else 0) =
        state.references other := fun other => references_eraseIdx found
  have one := erased buffer
  rw [if_pos rfl] at one
  have allocated : buffer < state.allocated := counted.allocated (by omega)
  apply counted.changed allocated
  case same => rfl
  case buffers => rfl
  case others =>
    intro other different
    have unmoved := erased other
    rwa [if_neg (Ne.symm different)] at unmoved
  case fits =>
    apply QueryBuffer.Fits.release
    rw [one]
    exact counted.fits buffer allocated
  case inside => exact counted.inside

omit [DecidableEq κ] in
/-- A transaction takes a reference to the buffer of a client. -/
theorem Counted.retained (counted : Counted state) {client : κ} {buffer : Nat}
    (held : state.held client = some buffer)
    (room : (state.buffers buffer).refcount.toNat + 1 < 2 ^ 32) :
    Counted { state.modify buffer .retain with pending := state.pending ++ [buffer] } := by
  have added : ∀ other, State.references { state.modify buffer .retain with
      pending := state.pending ++ [buffer] } other =
        state.references other + if buffer = other then 1 else 0 :=
    fun other => references_append buffer
  have some : state.references buffer ≠ 0 := by
    intro none
    exact (references_eq_zero_iff buffer).mp none (.inl ⟨client, held⟩)
  have allocated := counted.allocated some
  apply counted.changed allocated
  case same => rfl
  case buffers => rfl
  case others =>
    intro other different
    rw [added, if_neg (Ne.symm different)]
    rfl
  case fits =>
    rw [added, if_pos rfl]
    exact (counted.fits buffer allocated).retain some room
  case inside => exact counted.inside

omit [Fintype κ] [DecidableEq κ] in
theorem held_of_connected {client : κ} (connected : (state.clients client).connected = true) :
    state.held client = some (state.clients client).readBuf := if_pos connected

/-- A client replaces its buffer while another reference keeps the old one. -/
theorem Counted.replaced (counted : Counted state) {client : κ}
    (connected : (state.clients client).connected = true)
    (shared : 1 < (state.buffers (state.clients client).readBuf).refcount) :
    Counted ((state.modify (state.clients client).readBuf .drop).allocate.setClient client
      ⟨state.allocated, true, .reading⟩) := by
  have dropped := counted.givenUp (held_of_connected connected)
    fun _ fits => QueryBuffer.Fits.drop fits shared
  have free : ((state.modify (state.clients client).readBuf .drop).setClient client
      ⟨(state.clients client).readBuf, false, .outside⟩).held client = none := by
    rw [held_setClient, Function.update_self]
    rfl
  have taken := dropped.taken .reading free
  simp only [State.setClient, State.allocate, Function.update_idem] at taken
  exact taken

/-- An orderly step keeps the counts. -/
theorem Counted.step {action : Action κ} (counted : Counted state)
    (orderly : Orderly state action) (stepped : QueryBuffers.step state action = some next) :
    Counted next := by
  have connected : ∀ client, (state.clients client).reading ≠ .outside →
      (state.clients client).connected = true := counted.inside
  cases action with
  | connect client =>
      simp only [QueryBuffers.step] at stepped
      split_ifs at stepped with taken
      cases stepped
      exact counted.taken _ (if_neg taken)
  | read client =>
      simp only [QueryBuffers.step] at stepped
      split_ifs at stepped with ready
      cases stepped
      exact counted.moved .checking ready.1
  | load client =>
      simp only [QueryBuffers.step] at stepped
      split_ifs at stepped with ready shared
      all_goals
        cases stepped
        apply counted.moved
        apply connected
        rcases ready with checking | reading
        · simp [checking]
        · simp [reading]
  | replace client =>
      simp only [QueryBuffers.step] at stepped
      split_ifs at stepped with replacing
      have inside := connected client (by simp [replacing])
      rw [inside] at stepped
      cases stepped
      exact counted.replaced inside orderly
  | retain client =>
      simp only [QueryBuffers.step] at stepped
      split_ifs at stepped with reading
      cases stepped
      exact counted.retained (held_of_connected (connected client (by simp [reading]))) orderly
  | leave client =>
      simp only [QueryBuffers.step] at stepped
      split_ifs at stepped with reading
      cases stepped
      exact counted.moved .outside (connected client (by simp [reading]))
  | disconnect client =>
      simp only [QueryBuffers.step] at stepped
      split_ifs at stepped with isConnected
      have outside : (state.clients client).reading = .outside := orderly
      rw [outside] at stepped
      cases stepped
      exact counted.givenUp (held_of_connected isConnected) fun _ fits =>
        QueryBuffer.Fits.release fits
  | release index =>
      simp only [QueryBuffers.step] at stepped
      split at stepped
      · cases stepped
      · rename_i buffer found
        cases stepped
        exact counted.released found

/-- In every run of orderly steps each buffer is freed once after its last reference was given
up, and not before. -/
theorem queryBuffers_reclaimed {actions : List (Action κ)} {final : State κ}
    (orderly : Guarded QueryBuffers.step Orderly initial actions)
    (ran : run QueryBuffers.step initial actions = some final) : Reclaimed final := by
  have unreferred : ∀ buffer, (initial : State κ).references buffer = 0 := by
    intro buffer
    rw [references_eq_zero_iff]
    rintro (⟨client, held⟩ | pending)
    · cases held
    · cases pending
  have start : Counted (initial : State κ) := by
    constructor
    case fits =>
      intro buffer allocated
      cases allocated
    case fresh => exact fun buffer _ => unreferred buffer
    case inside =>
      intro client inside
      exact absurd rfl inside
  have counted : Counted final := guarded_run_invariant
    (fun _ _ _ counted orderly stepped => counted.step orderly stepped) start orderly ran
  exact counted.reclaimed

/-- Two transactions of one buffer, released after it was replaced. -/
theorem queryBuffers_reclaimed_replaced : ∃ final : State Unit,
    run QueryBuffers.step initial [.connect (), .read (), .load (), .retain (), .retain (),
      .leave (), .read (), .load (), .replace (), .leave (), .release 0, .release 0] =
        some final ∧ Reclaimed final := by
  have orderly : Guarded QueryBuffers.step Orderly (initial : State Unit) [.connect (), .read (),
      .load (), .retain (), .retain (), .leave (), .read (), .load (), .replace (), .leave (),
      .release 0, .release 0] := by decide
  exact ⟨_, rfl, queryBuffers_reclaimed orderly rfl⟩

/-- The transaction gives up the buffer between the test and the decrement: nobody frees it. -/
theorem queryBuffers_leaked : ∃ final : State Unit,
    run QueryBuffers.step initial [.connect (), .read (), .load (), .retain (), .leave (),
      .read (), .load (), .release 0, .replace ()] = some final ∧
      ¬final.Refers 0 ∧ (final.buffers 0).freed = 0 ∧ ¬Reclaimed final := by
  obtain ⟨final, ran, pending, held, freed, allocated⟩ : ∃ final : State Unit,
      run QueryBuffers.step initial [.connect (), .read (), .load (), .retain (), .leave (),
        .read (), .load (), .release 0, .replace ()] = some final ∧ final.pending = [] ∧
        final.held () = some 1 ∧ (final.buffers 0).freed = 0 ∧ 0 < final.allocated :=
    ⟨_, rfl, rfl, rfl, rfl, by decide⟩
  have unreferred : ¬final.Refers 0 := by
    rintro (⟨client, holds⟩ | waiting)
    · rw [held] at holds
      cases holds
    · rw [pending] at waiting
      cases waiting
  refine ⟨final, ran, unreferred, freed, fun reclaimed => ?_⟩
  rw [reclaimed.freed 0 allocated unreferred] at freed
  cases freed

end Steps

end TellyDB.Server.QueryBuffers
