import TellyDB.Server.PasswordEffects
import Mathlib.Data.List.Nodup
import Mathlib.Data.List.Basic

/-!
Owns what the password list always is: its passwords are pairwise distinct, and the
passwords in memory are the three constant ones and those of the list. Clients hold
no other.
-/

namespace TellyDB.Server

open Resp Lib

variable {σ D K : Type} {threads : Nat}

namespace Passwords

/-! ## The list and the memory -/

/-- A constant password, or one of the list. -/
def Valid (passwords : Passwords K) (address : Nat) : Prop :=
  address < 3 ∨ address ∈ passwords.list

/-- The derived value of a password. -/
def dataOf (passwords : Passwords K) (address : Nat) : Option K :=
  (passwords.objects address).bind Password.data

structure Sound (passwords : Passwords K) : Prop where
  listed : ∀ address ∈ passwords.list, 3 ≤ address ∧ address < passwords.nextAddress ∧
    (passwords.dataOf address).isSome
  distinct : passwords.list.Pairwise fun first second =>
    passwords.dataOf first ≠ passwords.dataOf second
  live : ∀ address, (passwords.objects address).isSome ↔ passwords.Valid address
  constants : 3 ≤ passwords.nextAddress

variable {passwords : Passwords K}

theorem Sound.nodup (sound : passwords.Sound) : passwords.list.Nodup := by
  apply sound.distinct.imp
  intro first second differ same
  exact differ (by rw [same])

theorem getD_eq {index : Nat} (bound : index < passwords.list.length) :
    passwords.list.getD index 0 = passwords.list[index] := by
  rw [List.getD_eq_getElem?_getD, List.getElem?_eq_getElem bound, Option.getD_some]

/-- An index in the list. -/
theorem getD_mem {index : Nat} (bound : index < passwords.list.length) :
    passwords.list.getD index 0 ∈ passwords.list := by
  rw [getD_eq bound]
  exact List.getElem_mem bound

/-- A constant password is not the next one. -/
theorem Sound.constant_ne_next (sound : passwords.Sound) {address : Nat}
    (constant : address < 3) : address ≠ passwords.nextAddress :=
  Nat.ne_of_lt (Nat.lt_of_lt_of_le constant sound.constants)

/-- A constant password is none of the list. -/
theorem Sound.constant_ne_getD (sound : passwords.Sound) {address index : Nat}
    (constant : address < 3) (bound : index < passwords.list.length) :
    address ≠ passwords.list.getD index 0 :=
  Nat.ne_of_lt (Nat.lt_of_lt_of_le constant (sound.listed _ (getD_mem bound)).1)

/-! ## Permissions -/

theorem objects_setPermissions (address other : Nat) (permissions : Permissions) :
    (passwords.setPermissions address permissions).objects other =
      if other = address then
        (passwords.objects address).map fun object => { object with permissions := permissions }
      else passwords.objects other := by
  simp only [setPermissions, Function.update_apply]

theorem dataOf_setPermissions (address other : Nat) (permissions : Permissions) :
    (passwords.setPermissions address permissions).dataOf other = passwords.dataOf other := by
  rw [dataOf, dataOf, objects_setPermissions]
  split
  · next same =>
      rw [same]
      cases passwords.objects address <;> rfl
  · rfl

theorem permissions_setPermissions (address other : Nat) (permissions : Permissions) :
    (passwords.setPermissions address permissions).permissions other =
      if other = address then (passwords.permissions address).map fun _ => permissions
      else passwords.permissions other := by
  simp only [Passwords.permissions, objects_setPermissions]
  split
  · cases passwords.objects address <;> rfl
  · rfl

theorem Sound.setPermissions (sound : passwords.Sound) (address : Nat)
    (permissions : Permissions) : (passwords.setPermissions address permissions).Sound where
  listed other member := by
    rw [dataOf_setPermissions]
    exact sound.listed other member
  distinct := by
    apply sound.distinct.imp
    intro first second differ
    rw [dataOf_setPermissions, dataOf_setPermissions]
    exact differ
  live other := by
    rw [objects_setPermissions]
    have same := sound.live other
    split
    · next here =>
        rw [here] at same ⊢
        rw [Option.isSome_map]
        exact same
    · exact same
  constants := sound.constants

/-! ## A new password -/

theorem objects_allocate (object : Password K) (other : Nat) :
    (passwords.allocate object).objects other =
      if other = passwords.nextAddress then some object else passwords.objects other := by
  simp only [allocate, Function.update_apply]

theorem dataOf_allocate (object : Password K) (other : Nat) :
    (passwords.allocate object).dataOf other =
      if other = passwords.nextAddress then object.data else passwords.dataOf other := by
  rw [dataOf, objects_allocate]
  split
  · rfl
  · rfl

/-- A new password changes no other. -/
theorem permissions_allocate (object : Password K) {other : Nat}
    (different : other ≠ passwords.nextAddress) :
    (passwords.allocate object).permissions other = passwords.permissions other := by
  rw [Passwords.permissions, objects_allocate, if_neg different, Passwords.permissions]

theorem Sound.allocate (sound : passwords.Sound) {value : K} {permissions : Permissions}
    (absent : ∀ address ∈ passwords.list, passwords.dataOf address ≠ some value) :
    (passwords.allocate ⟨some value, permissions⟩).Sound where
  listed address member := by
    rw [dataOf_allocate]
    rcases List.mem_append.mp member with before | new
    · rcases sound.listed address before with ⟨low, high, data⟩
      rw [if_neg (Nat.ne_of_lt high)]
      exact ⟨low, Nat.lt_succ_of_lt high, data⟩
    · rw [List.mem_singleton.mp new, if_pos rfl]
      exact ⟨sound.constants, Nat.lt_succ_self _, rfl⟩
  distinct := by
    have old : ∀ address ∈ passwords.list,
        (passwords.allocate ⟨some value, permissions⟩).dataOf address =
          passwords.dataOf address := by
      intro address member
      rw [dataOf_allocate, if_neg (Nat.ne_of_lt (sound.listed address member).2.1)]
    apply List.pairwise_append.mpr
    refine ⟨?_, List.pairwise_singleton _ _, ?_⟩
    · apply sound.distinct.imp_of_mem
      intro first second here there differ
      rw [old first here, old second there]
      exact differ
    · intro first here second new
      rw [List.mem_singleton.mp new, old first here, dataOf_allocate, if_pos rfl]
      exact absent first here
  live address := by
    rw [objects_allocate, Valid]
    have same := sound.live address
    rw [Valid] at same
    simp only [Passwords.allocate, List.mem_append, List.mem_singleton]
    split
    · next here => simp [here]
    · next other => simp [same, other]
  constants := Nat.le_succ_of_le sound.constants

/-! ## A password that is removed -/

theorem objects_release (index other : Nat) :
    (passwords.release index).objects other =
      if other = passwords.list.getD index 0 then none else passwords.objects other := by
  simp only [release, Function.update_apply]

theorem permissions_release {index other : Nat} (different : other ≠ passwords.list.getD index 0) :
    (passwords.release index).permissions other = passwords.permissions other := by
  rw [Passwords.permissions, objects_release, if_neg different, Passwords.permissions]

/-- The list without one of its passwords. -/
theorem Sound.mem_release (sound : passwords.Sound) {index : Nat}
    (bound : index < passwords.list.length) (address : Nat) :
    address ∈ (passwords.release index).list ↔
      address ∈ passwords.list ∧ address ≠ passwords.list.getD index 0 := by
  have erased : passwords.list.eraseIdx index =
      passwords.list.erase (passwords.list.getD index 0) := by
    rw [getD_eq bound]
    exact (sound.nodup.erase_getElem _ bound).symm
  rw [release, erased, sound.nodup.mem_erase_iff, and_comm]

theorem Sound.release (sound : passwords.Sound) {index : Nat}
    (bound : index < passwords.list.length) : (passwords.release index).Sound where
  listed address member := by
    rcases (sound.mem_release bound address).mp member with ⟨before, other⟩
    rw [dataOf, objects_release, if_neg other]
    exact sound.listed address before
  distinct := by
    have shorter : (passwords.release index).list.Sublist passwords.list :=
      List.eraseIdx_sublist _ _
    apply (sound.distinct.sublist shorter).imp_of_mem
    intro first second here there differ
    rw [dataOf, dataOf, objects_release, objects_release,
      if_neg ((sound.mem_release bound first).mp here).2,
      if_neg ((sound.mem_release bound second).mp there).2]
    exact differ
  live address := by
    rw [objects_release, Valid, sound.mem_release bound]
    have same := sound.live address
    rw [Valid] at same
    split
    · next here =>
        have low := (sound.listed _ (getD_mem bound)).1
        rw [← here] at low
        constructor
        · intro absurdity
          cases absurdity
        · rintro (constant | ⟨_, other⟩)
          · exact absurd constant (Nat.not_lt_of_le low)
          · exact absurd here other
    · next other => rw [same, and_iff_left other]
  constants := sound.constants

/-! ## Looking one up -/

variable [DecidableEq K] {config : Config σ D K} {value : Bytes}

theorem wherePassword_found {index : Nat}
    (found : passwords.wherePassword config value = some index) :
    index < passwords.list.length ∧
      passwords.dataOf (passwords.list.getD index 0) = some (config.derive value) := by
  unfold wherePassword at found
  rcases List.findIdx?_eq_some_iff_getElem.mp found with ⟨bound, holds, _⟩
  refine ⟨bound, ?_⟩
  rw [getD_eq bound]
  rcases (Option.any_eq_true _ _).mp holds with ⟨object, present, same⟩
  rw [dataOf, present]
  exact of_decide_eq_true same

/-- A password that is edited or removed is one of the list. -/
theorem Sound.target (sound : passwords.Sound)
    {index : Nat} (found : passwords.wherePassword config value = some index) :
    3 ≤ passwords.list.getD index 0 ∧ ∀ address,
      passwords.dataOf address ≠ some (config.derive value) →
      address ≠ passwords.list.getD index 0 := by
  rcases wherePassword_found found with ⟨bound, data⟩
  refine ⟨(sound.listed _ (getD_mem bound)).1, ?_⟩
  intro address differs same
  exact differs (same ▸ data)

theorem wherePassword_absent (absent : passwords.wherePassword config value = none) :
    ∀ address ∈ passwords.list, passwords.dataOf address ≠ some (config.derive value) := by
  intro address member same
  unfold wherePassword at absent
  have misses := List.findIdx?_eq_none_iff.mp absent address member
  rcases Option.bind_eq_some_iff.mp same with ⟨object, present, data⟩
  rw [present, Option.any_some, data, decide_eq_false_iff_not] at misses
  exact misses rfl

end Passwords

/-! ## What PWD makes of the list -/

section Changes

variable {config : Config σ D K} {state next : State σ D K threads} {client : Option Nat}

/-- The clients after the executor got the full password. -/
def State.fullAt (state : State σ D K threads) (slot : Nat) : State σ D K threads :=
  state.updateClient slot fun client => { client with password := fullPassword }

theorem clients_fullAt (slot other : Nat) :
    (state.fullAt slot).clients other =
      if other = slot then { state.clients slot with password := fullPassword }
      else state.clients other := by
  simp only [State.fullAt, State.updateClient, Function.update_apply]

/-- The first password is added by a client, which gets the full one while the one it
had loses its permissions; a later one is only added. -/
theorem addPassword_cases {data : Bytes} {permissions : Permissions}
    (added : addPassword config state client data permissions true = some (next, true)) :
    (state.passwords.list ≠ [] ∧ next = { state with
      passwords := state.passwords.allocate ⟨some (config.derive data), permissions⟩ }) ∨
    ∃ slot, client = some slot ∧ state.passwords.list = [] ∧ next = { state.fullAt slot with
      passwords := (state.passwords.setPermissions (state.clients slot).password
        Permission.none).allocate ⟨some (config.derive data), permissions⟩ } := by
  rcases addPassword_eq_some added with ⟨claimed, claim, rfl⟩
  unfold claimFirstPassword at claim
  split at claim
  · next empty =>
      rcases Option.bind_eq_some_iff.mp claim with ⟨slot, rfl, claim⟩
      cases claim
      exact .inr ⟨slot, rfl, List.length_eq_zero_iff.mp empty, rfl⟩
  · next some =>
      cases claim
      exact .inl ⟨fun none => some (List.length_eq_zero_iff.mpr none), rfl⟩

/-- The password is taken out of the list and from its clients; the executor gets the
full one when it was the last. -/
theorem removePassword_cases [DecidableEq K] {input : Bytes} {index : Nat}
    (found : state.passwords.wherePassword config input = some index)
    (removed : removePassword config state client input = some (next, true)) :
    (state.passwords.list.length ≠ 1 ∧ next = { state with
      clients := removePasswordFromClients state.clients (state.passwords.list.getD index 0)
      passwords := state.passwords.release index }) ∨
    ∃ slot, client = some slot ∧ state.passwords.list.length = 1 ∧ next = { state.fullAt slot with
      clients := removePasswordFromClients (state.fullAt slot).clients
        (state.passwords.list.getD index 0)
      passwords := state.passwords.release index } := by
  unfold removePassword at removed
  rw [found] at removed
  rcases Option.bind_eq_some_iff.mp removed with ⟨released, release, removed⟩
  cases removed
  unfold releaseLastPassword at release
  split at release
  · next last =>
      rcases Option.bind_eq_some_iff.mp release with ⟨slot, rfl, release⟩
      cases release
      exact .inr ⟨slot, rfl, last, rfl⟩
  · next others =>
      cases release
      exact .inl ⟨others, rfl⟩

theorem password_removed (clients : Nat → Client σ D) (address slot : Nat) :
    (removePasswordFromClients clients address slot).id = (clients slot).id ∧
      ((removePasswordFromClients clients address slot).password = (clients slot).password ∧
          ((clients slot).id.isSome → (clients slot).password ≠ address) ∨
        (clients slot).password = address ∧
          (removePasswordFromClients clients address slot).password = emptyPassword) := by
  unfold removePasswordFromClients
  split
  · next uses => exact ⟨rfl, .inr ⟨uses.2, rfl⟩⟩
  · next spared => exact ⟨rfl, .inl ⟨rfl, fun here same => spared ⟨here, same⟩⟩⟩

end Changes

/-! ## Who uses the passwords -/

/-- The passwords are in order, and connected clients hold valid ones. -/
structure Accounts (state : State σ D K threads) : Prop where
  sound : state.passwords.Sound
  held : ∀ slot id, (state.clients slot).id = some id →
    state.passwords.Valid (state.clients slot).password

section Accounts

variable {config : Config σ D K} {state next : State σ D K threads}

/-- A change of no password, in which clients may go. -/
theorem Accounts.same (accounts : Accounts state) (same : SamePasswords state next) :
    Accounts next where
  sound := same.passwords ▸ accounts.sound
  held slot id occupied := by
    rw [same.passwords, same.password]
    rcases same.id slot with stays | gone
    · exact accounts.held slot id (stays ▸ occupied)
    · rw [occupied] at gone
      cases gone

theorem Accounts.fullAt (accounts : Accounts state) (slot : Nat) :
    Accounts (state.fullAt slot) where
  sound := accounts.sound
  held other id occupied := by
    rw [clients_fullAt] at occupied ⊢
    split
    · exact .inl (show fullPassword < 3 by decide)
    · next elsewhere =>
        rw [if_neg elsewhere] at occupied
        exact accounts.held other id occupied

/-- A password that is removed is taken from every client. -/
theorem Accounts.release (accounts : Accounts state) {index : Nat}
    (bound : index < state.passwords.list.length) :
    Accounts { state with
      clients := removePasswordFromClients state.clients (state.passwords.list.getD index 0)
      passwords := state.passwords.release index } where
  sound := accounts.sound.release bound
  held slot id occupied := by
    rcases password_removed state.clients (state.passwords.list.getD index 0) slot with
      ⟨same, ⟨kept, spared⟩ | ⟨_, reset⟩⟩
    · have before := same ▸ occupied
      rw [kept]
      rcases accounts.held slot id before with constant | member
      · exact .inl constant
      · exact .inr ((accounts.sound.mem_release bound _).mpr
          ⟨member, spared (by rw [before]; rfl)⟩)
    · rw [reset]
      exact .inl (by decide)

variable [DecidableEq K]

theorem Accounts.step (accounts : Accounts state) {entry : Entry D} {command : Command σ D}
    (step : PasswordStep config entry state command next) : Accounts next := by
  cases step with
  | kept _ _ same => exact accounts.same same
  | authorized slot index input own found =>
      have bound := (Passwords.wherePassword_found found).1
      refine ⟨accounts.sound, ?_⟩
      intro other id occupied
      simp only [State.updateClient, Function.update_apply] at occupied ⊢
      split at occupied
      · next here =>
          rw [if_pos here]
          exact .inr (Passwords.getD_mem bound)
      · next elsewhere =>
          rw [if_neg elsewhere]
          exact accounts.held other id occupied
  | added data value held permissions _ asked absent holds allowed allocated added =>
      have fresh := Passwords.wherePassword_absent absent
      rcases addPassword_cases added with ⟨_, rfl⟩ | ⟨slot, _, empty, rfl⟩
      · refine ⟨accounts.sound.allocate fresh, ?_⟩
        intro other id occupied
        exact (accounts.held other id occupied).imp_right fun member =>
          List.mem_append_left _ member
      · have claimed := accounts.fullAt slot
        have emptied := claimed.sound.setPermissions (state.clients slot).password Permission.none
        refine ⟨emptied.allocate ?_, ?_⟩
        · intro address member
          rw [Passwords.dataOf_setPermissions]
          exact fresh address member
        · intro other id occupied
          exact (claimed.held other id occupied).imp_right fun member =>
            List.mem_append_left _ member
  | edited input value target held permissions asked found holds allowed =>
      exact ⟨accounts.sound.setPermissions _ _, accounts.held⟩
  | removed input index _ asked found removed =>
      have bound := (Passwords.wherePassword_found found).1
      rcases removePassword_cases found removed with ⟨_, rfl⟩ | ⟨slot, _, _, rfl⟩
      · exact accounts.release bound
      · have bounded : index < (state.fullAt slot).passwords.list.length := bound
        have released := (accounts.fullAt slot).release bounded
        exact ⟨released.sound, released.held⟩

/-- A transaction, whatever its password was captured as. -/
theorem executeTransaction_passwordStep {client : Option Nat} {password : Nat}
    {transaction : Transaction σ D} {block : Option Tag} {response : Response}
    (executed : executeTransaction config state client password transaction block =
      some (next, response)) :
    ∃ after, PasswordStep config (transaction.entry client password) state transaction.command
      after ∧ next.passwords = after.passwords ∧ next.clients = after.clients := by
  rcases executeTransaction_cases executed with ⟨slot, own, _, refused, rfl⟩ | ⟨ran, returned, rfl⟩
  · refine ⟨state, .kept _ _ SamePasswords.refl, ?_, ?_⟩
    · rw [writeMessage, writeToSocket_eq]
      rfl
    · rw [writeMessage, writeToSocket_eq]
      rfl
  · rcases runOn_passwordStep _ returned with ⟨after, step, replies⟩
    have passwords := congrArg State.passwords replies.eq
    have clients := congrArg State.clients replies.eq
    exact ⟨after, step, passwords, clients⟩

theorem Accounts.executeTransaction (accounts : Accounts state) {client : Option Nat}
    {password : Nat} {transaction : Transaction σ D} {block : Option Tag} {response : Response}
    (executed : executeTransaction config state client password transaction block =
      some (next, response)) : Accounts next := by
  rcases executeTransaction_passwordStep executed with ⟨after, step, passwords, clients⟩
  have stepped := accounts.step step
  refine ⟨passwords ▸ stepped.sound, ?_⟩
  rw [passwords, clients]
  exact stepped.held

end Accounts

/-! ## The start -/

theorem mem_initialPasswords {loaded : List (Password K)} {index : Nat} :
    index + 3 ∈ (initialPasswords loaded).list ↔ index < loaded.length := by
  simp [initialPasswords]

theorem dataOf_initialPasswords (loaded : List (Password K)) (index : Nat) :
    (initialPasswords loaded).dataOf (index + 3) = loaded[index]?.bind Password.data :=
  rfl

/-- The passwords a file holds, as the server loads them. -/
theorem initialPasswords_sound {loaded : List (Password K)}
    (derived : ∀ password ∈ loaded, password.data.isSome)
    (distinct : (loaded.map Password.data).Nodup) : (initialPasswords loaded).Sound where
  constants := Nat.le_add_left 3 _
  listed address member := by
    rcases List.mem_map.mp member with ⟨index, inside, rfl⟩
    have bound := List.mem_range.mp inside
    refine ⟨Nat.le_add_left 3 _, Nat.add_lt_add_right bound 3, ?_⟩
    rw [dataOf_initialPasswords, List.getElem?_eq_getElem bound]
    exact derived _ (List.getElem_mem bound)
  distinct := by
    apply List.pairwise_map.mpr
    apply List.pairwise_lt_range.imp_of_mem
    intro first second here there less same
    have firstBound := List.mem_range.mp here
    have secondBound := List.mem_range.mp there
    rw [dataOf_initialPasswords, dataOf_initialPasswords, List.getElem?_eq_getElem firstBound,
      List.getElem?_eq_getElem secondBound] at same
    have firstMapped : first < (loaded.map Password.data).length :=
      firstBound.trans_eq (List.length_map _).symm
    have secondMapped : second < (loaded.map Password.data).length :=
      secondBound.trans_eq (List.length_map _).symm
    have values : (loaded.map Password.data)[first] = (loaded.map Password.data)[second] := by
      rw [List.getElem_map, List.getElem_map]
      exact same
    exact absurd ((distinct.getElem_inj_iff).mp values) (Nat.ne_of_lt less)
  live address := by
    match address with
    | 0 | 1 | 2 => exact ⟨fun _ => .inl (by decide), fun _ => rfl⟩
    | index + 3 =>
        rw [Passwords.Valid, mem_initialPasswords]
        show loaded[index]?.isSome ↔ _
        rw [Option.isSome_iff_ne_none, ne_eq, List.getElem?_eq_none_iff, not_le]
        constructor
        · exact .inr
        · rintro (constant | bound)
          · exact absurd constant (Nat.not_lt_of_le (Nat.le_add_left 3 _))
          · exact bound

theorem accounts_start (config : Config σ D K) (databases : σ) {loaded : List (Password K)}
    (derived : ∀ password ∈ loaded, password.data.isSome)
    (distinct : (loaded.map Password.data).Nodup) :
    Accounts (start config databases loaded : State σ D K threads) where
  sound := initialPasswords_sound derived distinct
  held := nofun

end TellyDB.Server
