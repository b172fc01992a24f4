import TellyDB.Server.PasswordTable

/-!
Owns the memory behind the passwords of `server/auth.c`: the array `passwords`, which may be
`NULL`, freed or partly unset, and the context of the key derivation. A call of `add_password`
takes what its allocations and its derivation come to as an argument.

`none` is a crash: memory that is not there, an entry that was never set, a context that is freed.
-/

namespace TellyDB.Server

open Resp

/-- What `passwords` points to; an entry that was never set is `none`. -/
inductive PasswordArray where
  | null
  | freed
  | cells (entries : List (Option Nat))

namespace PasswordArray

/-- `passwords[index]`. -/
def entry (array : PasswordArray) (index : Nat) : Option Nat :=
  match array with
  | cells entries => entries[index]?.join
  | _ => none

/-- The array of a new size: a `malloc` for the first password, a `realloc` afterwards. -/
def resize (array : PasswordArray) (size : Nat) : Option PasswordArray :=
  if size = 1 then some (cells [none])
  else
    match array with
    | null => some (cells (List.replicate size none))
    | freed => none
    | cells entries =>
        some (cells (entries.take size ++ List.replicate (size - entries.length) none))

/-- `passwords[index] = password`. -/
def set (array : PasswordArray) (index address : Nat) : Option PasswordArray :=
  match array with
  | cells entries =>
      if index < entries.length then some (cells (entries.set index (some address))) else none
  | _ => none

end PasswordArray

/-- The variables of `auth.c`, the `Password` objects, and the password of each client. -/
structure PasswordMemory (K : Type) where
  objects : Nat → Option (Password K)
  passwords : PasswordArray
  passwordCount : BitVec 32
  context : Bool
  clients : Nat → Nat

namespace PasswordMemory

variable {σ D K : Type} {threads : Nat}

/-- `passwords[index]`. -/
def entry (memory : PasswordMemory K) (index : Nat) : Option Nat := memory.passwords.entry index

/-- `password_derive`, with the value or the failure of `EVP_KDF_derive`, after which the context
is freed. -/
def passwordDerive (memory : PasswordMemory K) (derived : Option K) :
    Option (PasswordMemory K × Option K) :=
  if memory.context then
    match derived with
    | some value => some (memory, some value)
    | none => some ({ memory with context := false }, none)
  else none

/-- The loop of `where_password`. -/
def whereFrom [DecidableEq K] (memory : PasswordMemory K) (value : K) :
    Nat → Nat → Option (Option Nat)
  | 0, _ => some none
  | remaining + 1, index => do
      let password ← (memory.entry index).bind memory.objects
      let data ← password.data
      if data = value then some (some index) else whereFrom memory value remaining (index + 1)

/-- `where_password`. -/
def wherePassword [DecidableEq K] (memory : PasswordMemory K) (derived : Option K) :
    Option (PasswordMemory K × Option Nat) := do
  match ← passwordDerive memory derived with
  | (memory, none) => some (memory, none)
  | (memory, some value) =>
      let found ← whereFrom memory value memory.passwordCount.toNat 0
      some (memory, found)

/-- The loop of `free_passwords`. -/
def freeFrom (memory : PasswordMemory K) : Nat → Nat → Option (PasswordMemory K)
  | 0, _ => some memory
  | remaining + 1, index => do
      let address ← memory.entry index
      let _ ← memory.objects address
      freeFrom { memory with objects := Function.update memory.objects address none }
        remaining (index + 1)

/-- `free_passwords`. -/
def freePasswords (memory : PasswordMemory K) : Option (PasswordMemory K) :=
  if memory.passwordCount = 0 then some memory
  else
    match memory.passwords with
    | .null => some memory
    | _ => do
        let memory ← freeFrom memory memory.passwordCount.toNat 0
        some { memory with passwords := .freed }

/-- What the calls in one `add_password` come to: the address of the object and what was in its
memory, whether the array is allocated, and the derived value. -/
structure Attempt (memory : PasswordMemory K) where
  object : Option { address : Nat // memory.objects address = none }
  leftover : Permissions
  array : Bool
  derived : Option K

/-- The first password takes the permissions of the password that its client has, which gets the
full one. -/
def claimFirst (memory : PasswordMemory K) (client : Option Nat) : Option (PasswordMemory K) :=
  if memory.passwordCount = 1 then do
    let slot ← client
    let held ← memory.objects (memory.clients slot)
    some { memory with
      objects := Function.update memory.objects (memory.clients slot)
        (some { held with permissions := Permission.none })
      clients := Function.update memory.clients slot fullPassword }
  else some memory

/-- `add_password`, and whether it returned 0. -/
def addPassword (memory : PasswordMemory K) (client : Option Nat) (permissions : Permissions)
    (attempt : Attempt memory) : Option (PasswordMemory K × Bool) :=
  match attempt.object with
  | none => some (memory, false)
  | some ⟨address, _⟩ => do
      let memory := { memory with
        objects := Function.update memory.objects address (some ⟨none, attempt.leftover⟩)
        passwordCount := memory.passwordCount + 1 }
      if attempt.array = false then
        some ({ memory with
          passwords := .null
          passwordCount := memory.passwordCount - 1
          objects := Function.update memory.objects address none }, false)
      else
        let passwords ← memory.passwords.resize memory.passwordCount.toNat
        let memory ← claimFirst { memory with passwords := passwords } client
        match ← passwordDerive memory attempt.derived with
        | (memory, none) => some (memory, false)
        | (memory, some value) =>
            let passwords ← memory.passwords.set (memory.passwordCount - 1).toNat address
            some ({ memory with
              objects := Function.update memory.objects address (some ⟨some value, permissions⟩)
              passwords := passwords }, true)

/-! ## All or nothing -/

/-- The passwords of the list are there, derived, and apart, and the derivation has its
context. -/
structure Sound (memory : PasswordMemory K) : Prop where
  context : memory.context = true
  listed : ∀ index < memory.passwordCount.toNat, ∃ address password value,
    memory.entry index = some address ∧ memory.objects address = some password ∧
      password.data = some value
  distinct : ∀ first < memory.passwordCount.toNat, ∀ second < memory.passwordCount.toNat,
    ∀ address, memory.entry first = some address → memory.entry second = some address →
      first = second

/-- The list with its passwords and the clients with theirs are what they were, and the list can
still be searched and freed. -/
structure Undone [DecidableEq K] (before after : PasswordMemory K) : Prop where
  count : after.passwordCount = before.passwordCount
  list : ∀ index < before.passwordCount.toNat, after.entry index = before.entry index
  contents : ∀ index < before.passwordCount.toNat, ∀ address ∈ before.entry index,
    after.objects address = before.objects address
  clients : ∀ slot, after.clients slot = before.clients slot ∧
    after.objects (after.clients slot) = before.objects (before.clients slot)
  searchable : ∀ derived, (wherePassword after derived).isSome
  freeable : (freePasswords after).isSome

/-- Where `add_password` returns -1, it has changed nothing. -/
def AllOrNothing [DecidableEq K] (memory : PasswordMemory K) (slot : Nat)
    (permissions : Permissions) (attempt : Attempt memory) : Prop :=
  ∀ after, addPassword memory (some slot) permissions attempt = some (after, false) →
    Undone memory after

/-- The object is not allocated, or the array of the first password is not, or nothing fails. -/
def Harmless (memory : PasswordMemory K) (attempt : Attempt memory) : Prop :=
  attempt.object = none ∨ attempt.array = false ∧ memory.passwordCount = 0 ∨
    attempt.array = true ∧ attempt.derived.isSome

variable {memory : PasswordMemory K}

/-! ## Searching and freeing -/

theorem whereFrom_isSome [DecidableEq K] {value : K} {remaining index : Nat}
    (listed : ∀ place, index ≤ place → place < index + remaining → ∃ address password value,
      memory.entry place = some address ∧ memory.objects address = some password ∧
        password.data = some value) :
    (whereFrom memory value remaining index).isSome := by
  induction remaining generalizing index with
  | zero => rfl
  | succ remaining inductionHypothesis =>
      obtain ⟨address, password, data, entry, object, derived⟩ := listed index (by omega) (by omega)
      have rest : (whereFrom memory value remaining (index + 1)).isSome := by
        apply inductionHypothesis
        intro place after before
        exact listed place (by omega) (by omega)
      simp only [whereFrom, entry, object, derived, Option.bind_eq_bind, Option.bind_some]
      split
      · rfl
      · exact rest

theorem Sound.searchable [DecidableEq K] (sound : memory.Sound) (derived : Option K) :
    (wherePassword memory derived).isSome := by
  cases derived with
  | none => simp [wherePassword, passwordDerive, sound.context]
  | some value =>
      have searched : (whereFrom memory value memory.passwordCount.toNat 0).isSome := by
        apply whereFrom_isSome
        intro place _ before
        exact sound.listed place (by omega)
      obtain ⟨found, searched⟩ := Option.isSome_iff_exists.mp searched
      simp [wherePassword, passwordDerive, sound.context, searched]

/-- The passwords from an entry on can be freed when they are there and apart. -/
theorem freeFrom_isSome {remaining index : Nat}
    (listed : ∀ place, index ≤ place → place < index + remaining → ∃ address password,
      memory.entry place = some address ∧ memory.objects address = some password)
    (distinct : ∀ first < index + remaining, ∀ second < index + remaining, ∀ address,
      memory.entry first = some address → memory.entry second = some address → first = second) :
    (freeFrom memory remaining index).isSome := by
  induction remaining generalizing memory index with
  | zero => rfl
  | succ remaining inductionHypothesis =>
      obtain ⟨address, password, entry, object⟩ := listed index (by omega) (by omega)
      simp only [freeFrom, entry, object, Option.bind_eq_bind, Option.bind_some]
      apply inductionHypothesis
      · intro place after before
        obtain ⟨other, password, there, object⟩ := listed place (by omega) (by omega)
        refine ⟨other, password, there, ?_⟩
        have apart : other ≠ address := by
          rintro rfl
          have same := distinct index (by omega) place (by omega) other entry there
          omega
        exact (Function.update_of_ne apart _ _).trans object
      · intro first before second behind
        exact distinct first (by omega) second (by omega)

theorem Sound.freeable (sound : memory.Sound) : (freePasswords memory).isSome := by
  have freed : (freeFrom memory memory.passwordCount.toNat 0).isSome := by
    apply freeFrom_isSome
    · intro place _ before
      obtain ⟨address, password, _, entry, object, _⟩ := sound.listed place (by omega)
      exact ⟨address, password, entry, object⟩
    · intro first before second behind
      exact sound.distinct first (by omega) second (by omega)
  obtain ⟨final, freed⟩ := Option.isSome_iff_exists.mp freed
  rw [freePasswords, freed]
  split
  · rfl
  · split <;> rfl

/-! ## What a failure leaves -/

theorem addPassword_object_failed {client : Option Nat} {permissions : Permissions}
    {attempt : Attempt memory} (failed : attempt.object = none) :
    addPassword memory client permissions attempt = some (memory, false) := by
  rw [addPassword, failed]

/-- The list is lost with the pointer to it, the count stays. -/
theorem addPassword_array_failed {client : Option Nat} {permissions : Permissions}
    {attempt : Attempt memory} (allocated : attempt.object ≠ none)
    (failed : attempt.array = false) :
    addPassword memory client permissions attempt =
      some ({ memory with passwords := .null }, false) := by
  obtain ⟨⟨address, fresh⟩, object⟩ := Option.ne_none_iff_exists'.mp allocated
  have restored : Function.update (Function.update memory.objects address
      (some ⟨none, attempt.leftover⟩)) address none = memory.objects := by
    rw [Function.update_idem, ← fresh, Function.update_eq_self]
  simp only [addPassword, object, failed, if_true, restored, BitVec.add_sub_cancel]

/-- An array whose list is there is not freed. -/
theorem Sound.resize_isSome (sound : memory.Sound) :
    (memory.passwords.resize (memory.passwordCount + 1).toNat).isSome := by
  unfold PasswordArray.resize
  split
  · rfl
  · next more =>
      have taken : 0 < memory.passwordCount.toNat ∨ memory.passwordCount = 0 := by bv_omega
      rcases taken with positive | empty
      · obtain ⟨first, _, _, entry, _⟩ := sound.listed 0 positive
        cases passwords : memory.passwords with
        | cells entries => rfl
        | _ =>
            rw [PasswordMemory.entry, passwords] at entry
            cases entry
      · rw [empty] at more
        exact absurd rfl more

/-- The password counts already, and the context is gone. -/
theorem addPassword_derivation_failed {permissions : Permissions} {attempt : Attempt memory}
    {slot : Nat} (sound : memory.Sound) (held : (memory.objects (memory.clients slot)).isSome)
    (allocated : attempt.object ≠ none) (grown : attempt.array = true)
    (failed : attempt.derived = none) :
    ∃ after, addPassword memory (some slot) permissions attempt = some (after, false) ∧
      after.passwordCount = memory.passwordCount + 1 := by
  obtain ⟨⟨address, fresh⟩, object⟩ := Option.ne_none_iff_exists'.mp allocated
  obtain ⟨passwords, resized⟩ := Option.isSome_iff_exists.mp sound.resize_isSome
  simp only [addPassword, object, grown, resized, Bool.true_eq_false, if_false,
    Option.bind_eq_bind, Option.bind_some]
  rw [claimFirst]
  split
  · have kept : (Function.update memory.objects address (some ⟨none, attempt.leftover⟩)
        (memory.clients slot)).isSome := by
      by_cases same : memory.clients slot = address
      · rw [same, Function.update_self]
        rfl
      · rw [Function.update_of_ne same]
        exact held
    obtain ⟨held, kept⟩ := Option.isSome_iff_exists.mp kept
    simp [kept, passwordDerive, sound.context, failed]
  · simp [passwordDerive, sound.context, failed]

/-! ## When it is all or nothing -/

theorem Undone.refl [DecidableEq K] (sound : memory.Sound) : Undone memory memory where
  count := rfl
  list _ _ := rfl
  contents _ _ _ _ := rfl
  clients _ := ⟨rfl, rfl⟩
  searchable := sound.searchable
  freeable := sound.freeable

/-- The pointer of an empty list does not matter. -/
theorem Undone.of_empty [DecidableEq K] (sound : memory.Sound) (empty : memory.passwordCount = 0) :
    Undone memory { memory with passwords := .null } where
  count := rfl
  list index inside := by
    rw [empty] at inside
    exact absurd inside (Nat.not_lt_zero index)
  contents _ _ _ _ := rfl
  clients _ := ⟨rfl, rfl⟩
  searchable derived := by
    cases derived <;> simp [wherePassword, passwordDerive, sound.context, empty, whereFrom]
  freeable := by simp [freePasswords, empty]

/-- `add_password` is all or nothing exactly when the object is not allocated, the list is empty
and its array is not, or both are and the derivation succeeds. -/
theorem allOrNothing_iff [DecidableEq K] (sound : memory.Sound) (slot : Nat)
    (held : (memory.objects (memory.clients slot)).isSome) (permissions : Permissions)
    (attempt : Attempt memory) :
    AllOrNothing memory slot permissions attempt ↔ Harmless memory attempt := by
  by_cases unallocated : attempt.object = none
  · apply iff_of_true _ (.inl unallocated)
    intro after returned
    rw [addPassword_object_failed unallocated] at returned
    cases returned
    exact Undone.refl sound
  cases array : attempt.array with
  | false =>
      rw [AllOrNothing, addPassword_array_failed unallocated array]
      constructor
      · intro undone
        have kept := (undone _ rfl).list
        refine .inr (.inl ⟨array, ?_⟩)
        by_contra some
        have positive : 0 < memory.passwordCount.toNat := by bv_omega
        obtain ⟨address, _, _, entry, _⟩ := sound.listed 0 positive
        have lost := (kept 0 positive).trans entry
        cases lost
      · rintro (none | ⟨_, empty⟩ | ⟨grown, _⟩)
        · exact absurd none unallocated
        · intro after returned
          cases returned
          exact Undone.of_empty sound empty
        · rw [array] at grown
          cases grown
  | true =>
      cases derived : attempt.derived with
      | none =>
          obtain ⟨after, returned, count⟩ :=
            @addPassword_derivation_failed K memory permissions attempt slot sound held unallocated
              array derived
          apply iff_of_false
          · intro undone
            have same := (undone after returned).count
            rw [count] at same
            bv_omega
          · rintro (none | ⟨failed, _⟩ | ⟨_, succeeded⟩)
            · exact unallocated none
            · rw [array] at failed
              cases failed
            · rw [derived] at succeeded
              cases succeeded
      | some value =>
          apply iff_of_true _ (.inr (.inr ⟨array, by rw [derived]; rfl⟩))
          intro after returned
          obtain ⟨⟨address, fresh⟩, object⟩ := Option.ne_none_iff_exists'.mp unallocated
          simp only [addPassword, object, array, derived, Bool.true_eq_false, if_false,
            Option.bind_eq_bind, Option.bind_eq_some_iff] at returned
          obtain ⟨_, _, claimed, _, ⟨result, value⟩, derivation, returned⟩ := returned
          rw [passwordDerive] at derivation
          split at derivation
          · cases derivation
            obtain ⟨_, _, accepted⟩ := Option.bind_eq_some_iff.mp returned
            cases accepted
          · cases derivation

/-- One password in memory, of a client that has the full one. -/
def onePassword : PasswordMemory Nat where
  objects address :=
    if address = fullPassword then some ⟨none, Permission.all⟩
    else if address = 3 then some ⟨some 7, Permission.read⟩
    else none
  passwords := .cells [some 3]
  passwordCount := 1
  context := true
  clients _ := fullPassword

/-- A second password, whose object is allocated. -/
def secondAttempt (array : Bool) : Attempt onePassword where
  object := some ⟨4, rfl⟩
  leftover := 0
  array := array
  derived := some 8

theorem onePassword_sound : onePassword.Sound where
  context := rfl
  listed index inside := by
    have first : index = 0 := Nat.lt_one_iff.mp inside
    subst first
    exact ⟨3, ⟨some 7, Permission.read⟩, 7, rfl, rfl, rfl⟩
  distinct first _ second _ address here there := by
    have only : ∀ index, onePassword.entry index = some address → index = 0 := by
      intro index entry
      cases index with
      | zero => rfl
      | succ index => cases entry
    rw [only first here, only second there]

theorem allOrNothing_iff_of_onePassword :
    AllOrNothing onePassword 1 Permission.read (secondAttempt true) ↔
      Harmless onePassword (secondAttempt true) :=
  allOrNothing_iff onePassword_sound 1 rfl Permission.read (secondAttempt true)

/-- When the array of a second password cannot be allocated, the list is gone, and a search for a
password reads behind `NULL`. -/
theorem not_allOrNothing_second :
    ¬AllOrNothing onePassword 1 Permission.read (secondAttempt false) := by
  intro undone
  have after := undone { onePassword with passwords := .null }
    (addPassword_array_failed (Option.some_ne_none _) rfl)
  have searched := after.searchable (some 7)
  cases searched

/-! ## A call in which nothing fails -/

/-- The passwords of the server are those that the list points to. -/
structure Represents (memory : PasswordMemory K) (state : State σ D K threads) : Prop where
  objects : memory.objects = state.passwords.objects
  count : memory.passwordCount.toNat = state.passwords.list.length
  list : ∀ index, index < state.passwords.list.length →
    memory.entry index = state.passwords.list[index]?
  clients : ∀ slot, memory.clients slot = (state.clients slot).password

section Success

variable {config : Config σ D K} {state next : State σ D K threads} {client : Option Nat}
  {data : Bytes} {permissions : Permissions} {attempt : Attempt memory}

/-- The array of a sound memory has an entry for each password. -/
theorem Sound.within (sound : memory.Sound) {entries : List (Option Nat)}
    (passwords : memory.passwords = .cells entries) :
    memory.passwordCount.toNat ≤ entries.length := by
  by_contra short
  obtain ⟨address, _, _, entry, _⟩ := sound.listed entries.length (Nat.not_le.mp short)
  rw [PasswordMemory.entry, passwords] at entry
  simp [PasswordArray.entry] at entry

/-- The larger array takes the new password behind the others, which stay. -/
theorem PasswordArray.resize_set {entries : List (Option Nat)} {count : Nat} (address : Nat)
    (within : count ≤ entries.length) (filled : count ≠ 0) :
    ∃ resized final, (PasswordArray.cells entries).resize (count + 1) = some resized ∧
      resized.set count address = some final ∧
      ∀ index ≤ count, final.entry index =
        if index < count then (PasswordArray.cells entries).entry index else some address := by
  have length : (entries.take (count + 1) ++
      List.replicate (count + 1 - entries.length) none).length = count + 1 := by
    rw [List.length_append, List.length_take, List.length_replicate]
    omega
  refine ⟨_, _, if_neg (by omega), if_pos ((Nat.lt_succ_self count).trans_eq length.symm), ?_⟩
  intro index inside
  show ((entries.take (count + 1) ++ List.replicate (count + 1 - entries.length) none).set count
    (some address))[index]?.join = _
  rw [List.getElem?_set]
  rcases Nat.lt_or_eq_of_le inside with before | rfl
  · have kept : index < (entries.take (count + 1)).length := by
      rw [List.length_take]
      omega
    rw [if_neg (by omega), if_pos before, List.getElem?_append_left kept,
      List.getElem?_take_of_lt (by omega)]
    rfl
  · rw [if_pos rfl, if_pos ((Nat.lt_succ_self index).trans_eq length.symm),
      if_neg (Nat.lt_irrefl _)]
    rfl

/-- The list of a sound memory grows by one password. -/
theorem Sound.resize_set (sound : memory.Sound) (address : Nat) :
    ∃ resized final, memory.passwords.resize (memory.passwordCount.toNat + 1) = some resized ∧
      resized.set memory.passwordCount.toNat address = some final ∧
      ∀ index ≤ memory.passwordCount.toNat, final.entry index =
        if index < memory.passwordCount.toNat then memory.entry index else some address := by
  by_cases empty : memory.passwordCount.toNat = 0
  · rw [empty]
    refine ⟨.cells [none], .cells [some address], rfl, rfl, ?_⟩
    intro index inside
    rw [Nat.le_zero.mp inside]
    rfl
  · obtain ⟨_, _, _, there, _⟩ := sound.listed 0 (Nat.pos_of_ne_zero empty)
    rw [PasswordMemory.entry] at there
    cases passwords : memory.passwords with
    | cells entries =>
        simp only [PasswordMemory.entry, passwords]
        exact PasswordArray.resize_set address (sound.within passwords) empty
    | _ =>
        rw [passwords] at there
        cases there

/-- The memory and the passwords after a password was added to both. -/
theorem Represents.allocate {next : State σ D K threads} {after : PasswordMemory K}
    {object : Password K} (represents : memory.Represents state) (passwords : Passwords K)
    (room : memory.passwordCount.toNat + 1 < 2 ^ 32)
    (list : passwords.list = state.passwords.list)
    (same : passwords.nextAddress = state.passwords.nextAddress)
    (added : next.passwords = passwords.allocate object)
    (objects : after.objects =
      Function.update passwords.objects state.passwords.nextAddress (some object))
    (count : after.passwordCount = memory.passwordCount + 1)
    (entries : ∀ index ≤ memory.passwordCount.toNat, after.entry index =
      if index < memory.passwordCount.toNat then memory.entry index
      else some state.passwords.nextAddress)
    (clients : ∀ slot, after.clients slot = (next.clients slot).password) :
    after.Represents next where
  objects := by rw [objects, added, Passwords.allocate, same]
  count := by
    have length := represents.count
    rw [count, added]
    simp only [Passwords.allocate, list, List.length_append, List.length_singleton]
    bv_omega
  list index inside := by
    rw [added] at inside ⊢
    simp only [Passwords.allocate, list, same, List.length_append, List.length_singleton]
      at inside ⊢
    rw [entries index (by rw [represents.count]; omega), represents.count]
    split
    · next before =>
        rw [List.getElem?_append_left before]
        exact represents.list index before
    · next behind =>
        obtain rfl : index = state.passwords.list.length := by omega
        rw [List.getElem?_concat_length]
  clients := clients

/-- A call in which nothing fails is that of the server, and returns 0. -/
theorem addPassword_represents (represents : memory.Represents state) (sound : memory.Sound)
    (held : ∀ slot ∈ client, (memory.objects (memory.clients slot)).isSome)
    (room : memory.passwordCount.toNat + 1 < 2 ^ 32)
    (object : attempt.object.map Subtype.val = some state.passwords.nextAddress)
    (grown : attempt.array = true) (derived : attempt.derived = some (config.derive data))
    (added : Server.addPassword config state client data permissions true = some (next, true)) :
    ∃ after, addPassword memory client permissions attempt = some (after, true) ∧
      after.Represents next := by
  obtain ⟨⟨address, fresh⟩, object, same⟩ := Option.map_eq_some_iff.mp object
  subst same
  have length := represents.count
  have size : (memory.passwordCount + 1).toNat = memory.passwordCount.toNat + 1 := by bv_omega
  obtain ⟨resized, final, resize, set, entries⟩ :=
    sound.resize_set state.passwords.nextAddress
  rcases addPassword_cases added with ⟨more, rfl⟩ | ⟨slot, rfl, empty, rfl⟩
  · have later : memory.passwordCount + 1 ≠ 1 := by
      intro first
      apply more
      apply List.eq_nil_of_length_eq_zero
      bv_omega
    simp only [addPassword, object, grown, derived, Bool.true_eq_false, if_false, size, resize,
      claimFirst, later, passwordDerive, sound.context, if_true, Option.bind_eq_bind,
      Option.bind_some, BitVec.add_sub_cancel, set]
    refine ⟨_, rfl, represents.allocate state.passwords room rfl rfl rfl ?_ rfl entries
      represents.clients⟩
    simp only [Function.update_idem, represents.objects]
  · have first : memory.passwordCount + 1 = 1 := by
      rw [empty, List.length_nil] at length
      bv_omega
    obtain ⟨held, kept⟩ := Option.isSome_iff_exists.mp (held slot rfl)
    have apart : memory.clients slot ≠ state.passwords.nextAddress := by
      intro here
      rw [here, fresh] at kept
      cases kept
    simp only [addPassword, object, grown, derived, Bool.true_eq_false, if_false, size, resize,
      Option.bind_eq_bind, Option.bind_some]
    rw [claimFirst, if_pos first]
    simp only [passwordDerive, sound.context, if_true, Option.bind_eq_bind, Option.bind_some,
      Function.update_of_ne apart, kept, BitVec.add_sub_cancel, set]
    let claimed := state.passwords.setPermissions (state.clients slot).password Permission.none
    refine ⟨_, rfl, represents.allocate claimed room rfl rfl rfl ?_ rfl entries ?_⟩
    · simp only [claimed, Passwords.setPermissions, ← represents.clients, ← represents.objects, kept,
        Option.map_some]
      rw [Function.update_comm apart, Function.update_idem, Function.update_comm apart]
    · intro other
      show Function.update memory.clients slot fullPassword other =
        ((state.fullAt slot).clients other).password
      rw [clients_fullAt, Function.update_apply, represents.clients]
      split <;> rfl

end Success

end PasswordMemory

end TellyDB.Server
