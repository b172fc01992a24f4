import TellyDB.Server.BlockOwnership

/-!
Owns the invariant of the block pointers: custody of every block, the log of
the queue, and what every function and every step does to them.
-/

namespace TellyDB.Server.BlockOwnership

open Lib Transition

variable {σ D : Type}

/-! ## The invariant -/

/-- What a departed client still points to was released. -/
def Slot.Left (slot : Slot) (released : List Nat) : Prop :=
  slot.connected = false → ∀ address, slot.waitingBlock = some address → address ∈ released

/-- Every block is in custody, has the type its place asks for, and went through
the queue at most once. -/
structure Sound (state : State σ D) : Prop where
  custody : Custody state.waiting state.pending state.blocks
  fresh : ∀ address, state.nextBlock ≤ address → state.blocks address = none
  collects : ∀ slot address block, state.waiting slot = some address →
    state.blocks address = some block → block.collects
  runs : ∀ address block, address ∈ state.pending →
    state.blocks address = some block → block.runs
  order : state.accepted = state.executed ++ state.pending
  finished : state.removed = state.executed
  once : state.executed.Nodup
  freed : ∀ address, address ∈ state.executed ∨ address ∈ state.released →
    address < state.nextBlock ∧ state.blocks address = none
  apart : ∀ address ∈ state.released, address ∉ state.executed
  left : ∀ slot, (state.clients slot).Left state.released

section Updates

variable {state : State σ D}

@[simp] theorem pending_push (address : Nat) :
    (state.push address).pending = state.pending ++ [address] :=
  (List.append_assoc ..).symm

@[simp] theorem pending_setBlock (address : Nat) (block : Option (Block σ D)) :
    (state.setBlock address block).pending = state.pending := rfl

@[simp] theorem pending_allocate (block : Block σ D) :
    (state.allocate block).pending = state.pending := rfl

@[simp] theorem pending_setClient (slot : Nat) (client : Slot) :
    (state.setClient slot client).pending = state.pending := rfl

theorem waiting_setClient (slot : Nat) (client : Slot) :
    (state.setClient slot client).waiting = Function.update state.waiting slot client.waiting := by
  funext other
  simp only [State.waiting, State.setClient, Function.update_apply]
  split <;> rfl

theorem waiting_of_connected {slot : Nat} (connected : (state.clients slot).connected = true) :
    state.waiting slot = (state.clients slot).waitingBlock := by
  rw [State.waiting, Slot.waiting, if_pos connected]

theorem left_setClient {slot : Nat} {client : Slot} {released : List Nat}
    (left : ∀ other, (state.clients other).Left released) (leaves : client.Left released)
    (other : Nat) : ((state.setClient slot client).clients other).Left released := by
  simp only [State.setClient, Function.update_apply]
  split
  · exact leaves
  · exact left other

theorem setBlock_cases {address other : Nat} {value : Option (Block σ D)} {found : Block σ D}
    (stored : (state.setBlock address value).blocks other = some found) :
    (other = address ∧ value = some found) ∨
      (other ≠ address ∧ state.blocks other = some found) :=
  Custody.held_of_update stored

variable (sound : Sound state)
include sound

theorem Sound.free : state.blocks state.nextBlock = none :=
  sound.fresh state.nextBlock (Nat.le_refl _)

theorem Sound.lt_next {address : Nat} (allocated : state.blocks address ≠ none) :
    address < state.nextBlock := by
  by_contra beyond
  exact allocated (sound.fresh address (Nat.le_of_not_lt beyond))

/-- What was freed stays freed in a state with one more block. -/
theorem Sound.freed_allocate (block : Block σ D) (address : Nat)
    (freed : address ∈ state.executed ∨ address ∈ state.released) :
    address < state.nextBlock + 1 ∧ (state.allocate block).blocks address = none := by
  obtain ⟨below, empty⟩ := sound.freed address freed
  refine ⟨Nat.lt_succ_of_lt below, ?_⟩
  exact (Function.update_of_ne (Nat.ne_of_lt below) ..).trans empty

theorem Sound.fresh_allocate (block : Block σ D) (address : Nat)
    (beyond : state.nextBlock + 1 ≤ address) : (state.allocate block).blocks address = none := by
  have later : address ≠ state.nextBlock := Nat.ne_of_gt beyond
  exact (Function.update_of_ne later ..).trans (sound.fresh address (Nat.le_of_lt beyond))

/-- A new block enters the queue. -/
theorem Sound.join {block : Block σ D} (runs : block.runs = true) :
    Sound ((state.allocate block).push state.nextBlock) where
  custody := by
    rw [pending_push]
    exact sound.custody.join sound.free block
  fresh := sound.fresh_allocate block
  collects slot address found waits stored := by
    rcases setBlock_cases stored with ⟨rfl, _⟩ | ⟨_, before⟩
    · exact absurd waits (sound.custody.not_held_of_free sound.free slot)
    · exact sound.collects slot address found waits before
  runs address found member stored := by
    rcases setBlock_cases stored with ⟨_, same⟩ | ⟨other, before⟩
    · cases same
      exact runs
    · rw [pending_push, List.mem_append, List.mem_singleton] at member
      exact sound.runs address found (member.resolve_right other) before
  order := by
    rw [pending_push, pending_allocate, ← List.append_assoc]
    exact congrArg (· ++ [state.nextBlock]) sound.order
  finished := sound.finished
  once := sound.once
  freed := sound.freed_allocate block
  apart := sound.apart
  left := sound.left

/-- A client gets a new block. -/
theorem Sound.give {slot : Nat} {block : Block σ D} (collects : block.collects = true)
    (connected : (state.clients slot).connected = true)
    (empty : (state.clients slot).waitingBlock = none) :
    Sound ((state.allocate block).setWaitingBlock slot (some state.nextBlock)) where
  custody := by
    have given := sound.custody.give sound.free
      ((waiting_of_connected connected).trans empty) block
    rw [State.setWaitingBlock, waiting_setClient]
    change Custody (Function.update _ slot (Slot.waiting ⟨(state.clients slot).connected, _⟩)) _ _
    rw [connected]
    exact given
  fresh := sound.fresh_allocate block
  collects other address found waits stored := by
    rcases setBlock_cases stored with ⟨_, same⟩ | ⟨different, before⟩
    · cases same
      exact collects
    · rw [State.setWaitingBlock, waiting_setClient] at waits
      rcases Custody.held_of_update waits with ⟨_, holds⟩ | ⟨_, waits⟩
      · rw [Slot.waiting] at holds
        split at holds
        · exact absurd (Option.some.inj holds).symm different
        · cases holds
      · exact sound.collects other address found waits before
  runs address found member stored := by
    rcases setBlock_cases stored with ⟨rfl, _⟩ | ⟨_, before⟩
    · exact absurd member (sound.custody.not_in_line_of_free sound.free)
    · exact sound.runs address found member before
  order := sound.order
  finished := sound.finished
  once := sound.once
  freed := sound.freed_allocate block
  apart := sound.apart
  left := left_setClient sound.left fun gone => absurd (connected.symm.trans gone) Bool.noConfusion

/-- The block of a client changes in place. -/
theorem Sound.write {slot address : Nat} {block : Block σ D}
    (waits : state.waiting slot = some address) (collects : block.collects = true) :
    Sound (state.setBlock address (some block)) where
  custody := sound.custody.write (sound.custody.allocated_of_held waits) block
  fresh other beyond := by
    have different : other ≠ address :=
      Nat.ne_of_gt
        (Nat.lt_of_lt_of_le (sound.lt_next (sound.custody.allocated_of_held waits)) beyond)
    exact (Function.update_of_ne different ..).trans (sound.fresh other beyond)
  collects other found stored waitsOther allocated := by
    rcases setBlock_cases allocated with ⟨_, same⟩ | ⟨_, before⟩
    · cases same
      exact collects
    · exact sound.collects other found stored waitsOther before
  runs other found member allocated := by
    rcases setBlock_cases allocated with ⟨rfl, _⟩ | ⟨_, before⟩
    · exact absurd member (sound.custody.apart slot other waits)
    · exact sound.runs other found member before
  order := sound.order
  finished := sound.finished
  once := sound.once
  freed other freed := by
    obtain ⟨below, empty⟩ := sound.freed other freed
    refine ⟨below, (Function.update_of_ne ?_ ..).trans empty⟩
    rintro rfl
    exact sound.custody.allocated_of_held waits empty
  apart := sound.apart
  left := sound.left

/-- The block of a client enters the queue. -/
theorem Sound.enqueue {slot address : Nat} (waits : state.waiting slot = some address)
    (runs : ∀ block, state.blocks address = some block → block.runs = true) :
    Sound ((state.push address).setWaitingBlock slot none) where
  custody := by
    have moved := sound.custody.enqueue waits
    rw [State.setWaitingBlock, waiting_setClient, pending_setClient, pending_push]
    have empty : Slot.waiting ⟨((state.push address).clients slot).connected, none⟩ = none := by
      unfold Slot.waiting
      split <;> rfl
    rw [empty]
    exact moved
  fresh := sound.fresh
  collects other found block waitsOther allocated := by
    rw [State.setWaitingBlock, waiting_setClient] at waitsOther
    rcases Custody.held_of_update waitsOther with ⟨_, holds⟩ | ⟨_, before⟩
    · unfold Slot.waiting at holds
      split at holds <;> cases holds
    · exact sound.collects other found block before allocated
  runs other block member allocated := by
    rw [State.setWaitingBlock, pending_setClient, pending_push, List.mem_append,
      List.mem_singleton] at member
    rcases member with before | rfl
    · exact sound.runs other block before allocated
    · exact runs block allocated
  order := by
    rw [State.setWaitingBlock, pending_setClient, pending_push, ← List.append_assoc]
    exact congrArg (· ++ [address]) sound.order
  finished := sound.finished
  once := sound.once
  freed := sound.freed
  apart := sound.apart
  left := by
    refine left_setClient sound.left fun _ found waits => ?_
    cases waits

/-- The block of a client is freed, and the client no longer has it, or is gone. -/
theorem Sound.release {slot address : Nat} {client : Slot}
    (waits : state.waiting slot = some address) (gone : client.waiting = none)
    (left : client.Left [address]) :
    Sound { (state.setBlock address none).setClient slot client with
      released := state.released ++ [address] } where
  custody := by
    have dropped := sound.custody.drop waits
    rw [← gone, ← waiting_setClient] at dropped
    exact dropped
  fresh other beyond := by
    change Function.update state.blocks address none other = none
    rw [Function.update_apply, sound.fresh other beyond, ite_self]
  collects other found block waitsOther allocated := by
    change ((state.setBlock address none).setClient slot client).waiting other = _ at waitsOther
    rw [waiting_setClient, gone] at waitsOther
    rcases Custody.held_of_update waitsOther with ⟨_, holds⟩ | ⟨_, before⟩
    · cases holds
    · rcases setBlock_cases allocated with ⟨_, impossible⟩ | ⟨_, stored⟩
      · cases impossible
      · exact sound.collects other found block before stored
  runs other block member allocated := by
    rcases setBlock_cases allocated with ⟨_, impossible⟩ | ⟨_, stored⟩
    · cases impossible
    · exact sound.runs other block member stored
  order := sound.order
  finished := sound.finished
  once := sound.once
  freed other freed := by
    change _ ∧ Function.update state.blocks address none other = none
    rw [List.mem_append, List.mem_singleton, ← or_assoc] at freed
    rw [Function.update_apply]
    rcases freed with before | rfl
    · rw [(sound.freed other before).2, ite_self]
      exact ⟨(sound.freed other before).1, rfl⟩
    · rw [if_pos rfl]
      exact ⟨sound.lt_next (sound.custody.allocated_of_held waits), rfl⟩
  apart other member := by
    rcases List.mem_append.mp member with before | last
    · exact sound.apart other before
    · rw [List.mem_singleton.mp last]
      intro executed
      exact sound.custody.allocated_of_held waits (sound.freed address (.inl executed)).2
  left := by
    refine left_setClient (fun other gone found waits => ?_) fun gone found waits => ?_
    · exact List.mem_append_left _ (sound.left other gone found waits)
    · exact List.mem_append_right _ (left gone found waits)

/-- The executed block is freed. -/
theorem Sound.finish {address : Nat} (executing : state.executing = some address) :
    Sound { state.setBlock address none with
      executing := none
      executed := state.executed ++ [address]
      removed := state.removed ++ [address] } where
  custody := by
    have custody := sound.custody
    rw [State.pending, executing] at custody
    exact custody.finish
  fresh other beyond := by
    change Function.update state.blocks address none other = none
    rw [Function.update_apply, sound.fresh other beyond, ite_self]
  collects other found block waits allocated := by
    rcases setBlock_cases allocated with ⟨_, impossible⟩ | ⟨_, stored⟩
    · cases impossible
    · exact sound.collects other found block waits stored
  runs other block member allocated := by
    rcases setBlock_cases allocated with ⟨_, impossible⟩ | ⟨_, stored⟩
    · cases impossible
    · refine sound.runs other block ?_ stored
      exact List.mem_append_right _ member
  order := by
    have order := sound.order
    rw [State.pending, executing] at order
    rw [State.pending, List.append_assoc]
    exact order
  finished := congrArg (· ++ [address]) sound.finished
  once := by
    have pending : address ∈ state.pending := by
      rw [State.pending, executing]
      exact List.mem_cons_self ..
    rw [← List.concat_eq_append]
    refine sound.once.concat fun executed => ?_
    exact sound.custody.allocated_of_line pending (sound.freed address (.inl executed)).2
  freed other freed := by
    have pending : address ∈ state.pending := by
      rw [State.pending, executing]
      exact List.mem_cons_self ..
    change _ ∧ Function.update state.blocks address none other = none
    rw [Function.update_apply]
    rw [List.mem_append, List.mem_singleton, or_right_comm] at freed
    rcases freed with before | rfl
    · rw [(sound.freed other before).2, ite_self]
      exact ⟨(sound.freed other before).1, rfl⟩
    · rw [if_pos rfl]
      exact ⟨sound.lt_next (sound.custody.allocated_of_line pending), rfl⟩
  apart other member executed := by
    have pending : address ∈ state.pending := by
      rw [State.pending, executing]
      exact List.mem_cons_self ..
    rcases List.mem_append.mp executed with before | last
    · exact sound.apart other member before
    · rw [List.mem_singleton.mp last] at member
      exact sound.custody.allocated_of_line pending (sound.freed address (.inr member)).2
  left := sound.left

/-- A client without a block gets another state without one. -/
theorem Sound.setClient {slot : Nat} {client : Slot} (before : state.waiting slot = none)
    (after : client.waitingBlock = none) : Sound (state.setClient slot client) := by
  have gone : client.waiting = none := by
    unfold Slot.waiting
    rw [after, ite_self]
  have same : (state.setClient slot client).waiting = state.waiting := by
    rw [waiting_setClient, gone, ← before, Function.update_eq_self]
  exact {
    custody := by
      rw [same]
      exact sound.custody
    fresh := sound.fresh
    collects := by
      rw [same]
      exact sound.collects
    runs := sound.runs
    order := sound.order
    finished := sound.finished
    once := sound.once
    freed := sound.freed
    apart := sound.apart
    left := by
      refine left_setClient sound.left fun _ found waits => ?_
      rw [after] at waits
      cases waits }

/-- The first block of the queue is popped. -/
theorem Sound.pop {next : State σ D} (popped : popTqueue state = some next) : Sound next := by
  unfold popTqueue at popped
  split at popped
  · rename_i address rest idle queue
    have same : (some address).toList ++ rest = state.pending := by
      rw [State.pending, idle, queue]
      rfl
    cases popped
    exact {
      custody := by
        rw [State.pending, same]
        exact sound.custody
      fresh := sound.fresh
      collects := sound.collects
      runs := by
        rw [State.pending, same]
        exact sound.runs
      order := by
        rw [State.pending, same]
        exact sound.order
      finished := sound.finished
      once := sound.once
      freed := sound.freed
      apart := sound.apart
      left := sound.left }
  · cases popped

end Updates

/-! ## What the functions do -/

section Functions

variable {capacity : Nat} {state : State σ D}

variable (sound : Sound state)
include sound

/-- A connected client's waiting block is allocated, and collects. -/
theorem Sound.waitingBlock {slot address : Nat} (connected : (state.clients slot).connected = true)
    (waits : (state.clients slot).waitingBlock = some address) :
    ∃ block, state.blocks address = some block ∧ block.collects = true := by
  have held := (waiting_of_connected connected).trans waits
  obtain ⟨block, stored⟩ := Option.ne_none_iff_exists'.mp (sound.custody.allocated_of_held held)
  exact ⟨block, stored, sound.collects slot address block held stored⟩

variable {slot : Nat} (connected : (state.clients slot).connected = true)
include connected

end Functions

/-! ## Execution -/

section Execution

variable {capacity : Nat} {state : State σ D} {client : Option Nat}

end Execution

end TellyDB.Server.BlockOwnership
