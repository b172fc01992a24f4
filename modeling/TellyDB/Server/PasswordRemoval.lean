import TellyDB.Server.PasswordMemory

/-!
Owns the memory behind `remove_password` of `server/auth.c`: the gap that it closes in the array,
the count, the clients that lose the password, and that the list stays sound.
-/

namespace TellyDB.Server

open Resp

namespace PasswordArray

/-- `memmove(passwords + at, passwords + at + 1, count * sizeof(Password *))`. -/
def close (array : PasswordArray) (index count : Nat) : Option PasswordArray :=
  match array with
  | cells entries =>
      if index + 1 + count ≤ entries.length then
        some (cells (entries.take index ++ (entries.drop (index + 1)).take count ++
          entries.drop (index + count)))
      else none
  | _ => none

/-- `sizeof(Password)`. -/
def passwordSize : Nat := 52

/-- `sizeof(Password *)`. -/
def pointerSize : Nat := 8

/-- The `realloc` of `remove_password`, which counts a `Password` for each pointer. -/
def reallocate (array : PasswordArray) (count : Nat) : Option PasswordArray :=
  match array with
  | cells entries =>
      let size := count * passwordSize / pointerSize
      some (cells (entries.take size ++ List.replicate (size - entries.length) none))
  | _ => none

end PasswordArray

namespace PasswordMemory

variable {σ D K : Type} {threads : Nat}

/-- `remove_password_from_clients`; the clients that are `present` have an id. -/
def removePasswordFromClients (memory : PasswordMemory K) (present : Nat → Bool) (address : Nat) :
    PasswordMemory K :=
  { memory with clients := fun slot =>
      if present slot ∧ memory.clients slot = address then emptyPassword
      else memory.clients slot }

/-- `free` of a password. -/
def freePassword (memory : PasswordMemory K) (address : Nat) : Option (PasswordMemory K) :=
  (memory.objects address).map fun _ =>
    { memory with objects := Function.update memory.objects address none }

/-- `remove_password`, and whether it returned 0. `grown` says whether the array is allocated
again. -/
def removePassword [DecidableEq K] (memory : PasswordMemory K) (present : Nat → Bool)
    (executor : Option Nat) (derived : Option K) (grown : Bool) :
    Option (PasswordMemory K × Bool) := do
  match ← wherePassword memory derived with
  | (memory, none) => some (memory, false)
  | (memory, some index) =>
      let address ← memory.entry index
      if memory.passwordCount = 1 then do
        let slot ← executor
        let memory := { memory with
          clients := Function.update memory.clients slot fullPassword, passwordCount := 0 }
        let memory ← freePassword (removePasswordFromClients memory present address) address
        some ({ memory with passwords := .freed }, true)
      else do
        let memory ← freePassword (removePasswordFromClients memory present address) address
        let count := memory.passwordCount - 1
        let moved ← memory.passwords.close index (count.toNat - index)
        if grown then do
          let passwords ← moved.reallocate count.toNat
          some ({ memory with passwordCount := count, passwords := passwords }, true)
        else some ({ memory with passwordCount := count, passwords := .null }, true)

/-! ## The array -/

/-- The entries behind the gap move up by one. -/
theorem PasswordArray.close_reallocate {entries : List (Option Nat)} {index count : Nat}
    (inside : index < count + 1) (within : count + 1 ≤ entries.length) :
    ∃ moved final, (PasswordArray.cells entries).close index (count - index) = some moved ∧
      moved.reallocate count = some final ∧ ∀ place < count, final.entry place =
        (PasswordArray.cells entries).entry (if place < index then place else place + 1) := by
  have length : (entries.take index ++ (entries.drop (index + 1)).take (count - index) ++
      entries.drop (index + (count - index))).length = entries.length := by
    simp only [List.length_append, List.length_take, List.length_drop]
    omega
  have size : count ≤ count * PasswordArray.passwordSize / PasswordArray.pointerSize := by
    rw [PasswordArray.passwordSize, PasswordArray.pointerSize]
    omega
  refine ⟨_, _, if_pos (by omega), rfl, fun place before => ?_⟩
  show (List.take _ _ ++ List.replicate _ none)[place]?.join = entries[_]?.join
  rw [List.getElem?_append_left (by rw [List.length_take, length]; omega),
    List.getElem?_take_of_lt (by omega), List.append_assoc]
  congr 1
  split
  · next front =>
      rw [List.getElem?_append_left (by rw [List.length_take]; omega),
        List.getElem?_take_of_lt front]
  · next behind =>
      have start : (entries.take index).length = index := by
        rw [List.length_take]
        omega
      rw [List.getElem?_append_right (by omega), start,
        List.getElem?_append_left (by rw [List.length_take, List.length_drop]; omega),
        List.getElem?_take_of_lt (by omega), List.getElem?_drop]
      congr 1
      omega

/-- A password is freed and taken out of the list, and the clients hold these. -/
structure Removes (memory : PasswordMemory K) (index address : Nat) (clients : Nat → Nat)
    (after : PasswordMemory K) : Prop where
  context : after.context = memory.context
  objects : after.objects = Function.update memory.objects address none
  count : after.passwordCount.toNat + 1 = memory.passwordCount.toNat
  entries : ∀ place < after.passwordCount.toNat,
    after.entry place = memory.entry (if place < index then place else place + 1)
  clients : after.clients = clients

/-- The list without one of its passwords, as long as the removed one is freed. -/
theorem Sound.remove {memory after : PasswordMemory K} (sound : memory.Sound)
    {index address : Nat} {clients : Nat → Nat}
    (removes : Removes memory index address clients after)
    (inside : index < memory.passwordCount.toNat) (entry : memory.entry index = some address) :
    after.Sound where
  context := removes.context.trans sound.context
  listed place before := by
    have count := removes.count
    have within : (if place < index then place else place + 1) < memory.passwordCount.toNat := by
      split <;> omega
    obtain ⟨other, password, value, there, object, derived⟩ := sound.listed _ within
    refine ⟨other, password, value, (removes.entries place before).trans there, ?_, derived⟩
    have apart : other ≠ address := by
      rintro rfl
      have same := sound.distinct _ within index inside other there entry
      split at same <;> omega
    rw [removes.objects, Function.update_of_ne apart]
    exact object
  distinct first before second behind other here there := by
    have count := removes.count
    rw [removes.entries first before] at here
    rw [removes.entries second behind] at there
    have same := sound.distinct _ (by split <;> omega) _ (by split <;> omega) other here there
    split at same <;> split at same <;> omega

/-- The memory and the passwords after a password was taken out of both. -/
theorem Represents.release {memory after : PasswordMemory K} {state next : State σ D K threads}
    (represents : memory.Represents state) {index : Nat} {clients : Nat → Nat}
    (removes : Removes memory index (state.passwords.list.getD index 0) clients after)
    (inside : index < state.passwords.list.length)
    (released : next.passwords = state.passwords.release index)
    (held : ∀ slot, clients slot = (next.clients slot).password) : after.Represents next where
  objects := by rw [removes.objects, released, Passwords.release, represents.objects]
  count := by
    have length := represents.count
    have count := removes.count
    rw [released, Passwords.release, List.length_eraseIdx_of_lt inside]
    omega
  list place before := by
    have length := represents.count
    have count := removes.count
    rw [released, Passwords.release] at before ⊢
    dsimp only at before ⊢
    rw [List.length_eraseIdx_of_lt inside] at before
    rw [removes.entries place (by omega), List.getElem?_eraseIdx]
    split
    · exact represents.list place (by omega)
    · exact represents.list (place + 1) (by omega)
  clients slot := by
    rw [removes.clients]
    exact held slot

theorem clients_removed {memory : PasswordMemory K} {clients : Nat → Client σ D} {present : Nat → Bool} {address : Nat}
    (held : ∀ slot, memory.clients slot = (clients slot).password)
    (same : ∀ slot, present slot = (clients slot).id.isSome) (slot : Nat) :
    (removePasswordFromClients memory present address).clients slot =
      (Server.removePasswordFromClients clients address slot).password := by
  simp only [removePasswordFromClients, Server.removePasswordFromClients, held, same]
  split <;> rfl

/-! ## The search -/

section Removal

variable [DecidableEq K] {memory : PasswordMemory K} {config : Config σ D K}
  {state next : State σ D K threads} {executor : Option Nat} {data : Bytes} {removed : Bool}

/-- The loop finds the first password of the list with the value. -/
theorem Represents.whereFrom (represents : memory.Represents state) (sound : memory.Sound)
    (value : K) {remaining index : Nat} (whole : index + remaining = state.passwords.list.length) :
    PasswordMemory.whereFrom memory value remaining index =
      some (((state.passwords.list.drop index).findIdx? fun password =>
        (state.passwords.objects password).any fun object => object.data = some value).map
          (index + ·)) := by
  induction remaining generalizing index with
  | zero =>
      rw [List.drop_of_length_le (by omega)]
      rfl
  | succ remaining inductionHypothesis =>
      have before : index < state.passwords.list.length := by omega
      obtain ⟨address, password, found, entry, object, derived⟩ :=
        sound.listed index (by rw [represents.count]; exact before)
      have listed := represents.list index before
      rw [entry, List.getElem?_eq_getElem before, Option.some.injEq] at listed
      rw [PasswordMemory.whereFrom, entry, List.drop_eq_getElem_cons before, ← listed,
        List.findIdx?_cons, ← represents.objects, object]
      simp only [Option.bind_eq_bind, Option.bind_some, object, derived, Option.any_some,
        Option.some.injEq, decide_eq_true_eq]
      split
      · rfl
      · rw [inductionHypothesis (by omega), represents.objects, Option.map_map]
        congr 2
        funext place
        exact (Nat.add_right_comm index 1 place).trans (Nat.add_assoc index place 1)

theorem Represents.wherePassword (represents : memory.Represents state) (sound : memory.Sound) :
    PasswordMemory.wherePassword memory (some (config.derive data)) =
      some (memory, state.passwords.wherePassword config data) := by
  have searched := represents.whereFrom sound (config.derive data)
    ((Nat.zero_add memory.passwordCount.toNat).trans represents.count)
  simp only [PasswordMemory.wherePassword, passwordDerive, sound.context, if_true,
    Option.bind_eq_bind, Option.bind_some, searched, List.drop_zero, Nat.zero_add, Option.map_id']
  rfl

/-! ## A removal -/

/-- One of several passwords: the others move up. -/
theorem Sound.removes_several (sound : memory.Sound) {index address : Nat} {derived : Option K}
    (inside : index < memory.passwordCount.toNat) (entry : memory.entry index = some address)
    (several : memory.passwordCount ≠ 1) (present : Nat → Bool)
    (searched : PasswordMemory.wherePassword memory derived = some (memory, some index)) :
    ∃ after, removePassword memory present executor derived true = some (after, true) ∧
      Removes memory index address (removePasswordFromClients memory present address).clients
        after := by
  obtain ⟨other, password, _, there, object, -⟩ := sound.listed index inside
  obtain rfl : address = other := Option.some.inj (entry.symm.trans there)
  have count : (memory.passwordCount - 1).toNat + 1 = memory.passwordCount.toNat := by bv_omega
  obtain ⟨cells, passwords⟩ : ∃ cells, memory.passwords = .cells cells := by
    rw [PasswordMemory.entry] at entry
    cases passwords : memory.passwords with
    | cells entries => exact ⟨entries, rfl⟩
    | _ =>
        rw [passwords] at entry
        cases entry
  obtain ⟨moved, final, closed, reallocated, entries⟩ :=
    PasswordArray.close_reallocate (count ▸ inside) (count ▸ sound.within passwords)
  rw [removePassword, searched]
  simp only [Option.bind_eq_bind, Option.bind_some, entry, if_neg several, freePassword,
    removePasswordFromClients, object, Option.map_some, passwords, closed, if_true, reallocated]
  refine ⟨_, rfl, rfl, rfl, count, ?_, rfl⟩
  simp only [PasswordMemory.entry, passwords]
  exact entries

/-- The only password: its executor gets the full one. -/
theorem Sound.removes_last (sound : memory.Sound) {index address slot : Nat} {derived : Option K}
    (inside : index < memory.passwordCount.toNat) (entry : memory.entry index = some address)
    (last : memory.passwordCount = 1) (present : Nat → Bool)
    (searched : PasswordMemory.wherePassword memory derived = some (memory, some index)) :
    ∃ after, removePassword memory present (some slot) derived true = some (after, true) ∧
      Removes memory index address (removePasswordFromClients
        { memory with clients := Function.update memory.clients slot fullPassword }
        present address).clients after := by
  obtain ⟨other, password, _, there, object, -⟩ := sound.listed index inside
  obtain rfl : address = other := Option.some.inj (entry.symm.trans there)
  rw [removePassword, searched]
  simp only [Option.bind_eq_bind, Option.bind_some, entry, if_pos last, freePassword,
    removePasswordFromClients, object, Option.map_some]
  refine ⟨_, rfl, rfl, rfl, ?_, fun place before => absurd before (Nat.not_lt_zero place), rfl⟩
  rw [last]
  rfl

/-- A call in which nothing fails is that of the server, and leaves the list sound. -/
theorem removePassword_represents (represents : memory.Represents state) (sound : memory.Sound)
    (removal : Server.removePassword config state executor data = some (next, removed)) :
    ∃ after, removePassword memory (fun slot => (state.clients slot).id.isSome) executor
        (some (config.derive data)) true = some (after, removed) ∧
      after.Represents next ∧ after.Sound := by
  have searched : PasswordMemory.wherePassword memory (some (config.derive data)) =
      some (memory, state.passwords.wherePassword config data) := represents.wherePassword sound
  cases found : state.passwords.wherePassword config data with
  | none =>
      rw [Server.removePassword, found] at removal
      cases removal
      refine ⟨memory, ?_, represents, sound⟩
      rw [removePassword, searched, found]
      rfl
  | some index =>
      rw [found] at searched
      obtain ⟨inside, -⟩ := Passwords.wherePassword_found found
      have length := represents.count
      have within : index < memory.passwordCount.toNat := by omega
      have entry : memory.entry index = some (state.passwords.list.getD index 0) := by
        rw [represents.list index inside, Passwords.getD_eq inside, List.getElem?_eq_getElem inside]
      obtain rfl : removed = true := by
        rw [Server.removePassword, found] at removal
        obtain ⟨_, _, removal⟩ := Option.bind_eq_some_iff.mp removal
        cases removal
        rfl
      rcases removePassword_cases found removal with ⟨several, rfl⟩ | ⟨slot, rfl, last, rfl⟩
      · have more : memory.passwordCount ≠ 1 := by
          intro one
          rw [one] at length
          exact several length.symm
        obtain ⟨after, ran, removes⟩ := sound.removes_several within entry more _ searched
        exact ⟨after, ran, represents.release removes inside rfl
          (clients_removed represents.clients fun _ => rfl), sound.remove removes within entry⟩
      · have one : memory.passwordCount = 1 := by bv_omega
        obtain ⟨after, ran, removes⟩ := sound.removes_last within entry one _ searched
        refine ⟨after, ran, represents.release removes inside rfl
          (clients_removed (fun other => ?_) fun other => ?_), sound.remove removes within entry⟩
        · show Function.update memory.clients slot fullPassword other = _
          rw [clients_fullAt, Function.update_apply, represents.clients]
          split <;> rfl
        · rw [clients_fullAt]
          split
          · next same => rw [same]
          · rfl

end Removal

end PasswordMemory

end TellyDB.Server
