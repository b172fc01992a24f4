import TellyDB.Server.PasswordTable

/-!
Owns the administration of passwords: runs in which clients connect and go and
transactions are executed one after another. Whatever password a transaction was
enqueued with, the password list stays in order; whether a server without passwords
gives full access depends on how it lost them.
-/

namespace TellyDB.Server

open Resp Lib

variable {σ D K : Type} {threads : Nat}

/-! ## Runs -/

/-- A connection comes, the client of a slot goes, or the transaction thread executes
a transaction for the client of a slot, with the password it was enqueued with. -/
inductive Administration (σ D : Type) where
  | connect
  | disconnect (slot : Nat)
  | execute (slot password : Nat) (transaction : Transaction σ D)

def administer [DecidableEq K] (config : Config σ D K) (state : State σ D K threads) :
    Administration σ D → Option (State σ D K threads)
  | .connect => acceptClient config state
  | .disconnect slot => terminateConnection config state slot
  | .execute slot password transaction =>
      (executeTransaction config state (connectedClient state slot) password transaction none).map
        Prod.fst

section Steps

variable [DecidableEq K] {config : Config σ D K} {state next : State σ D K threads}

theorem administer_execute {slot password : Nat} {transaction : Transaction σ D}
    (stepped : administer config state (.execute slot password transaction) = some next) :
    ∃ response, executeTransaction config state (connectedClient state slot) password
      transaction none = some (next, response) := by
  rcases Option.map_eq_some_iff.mp stepped with ⟨⟨after, response⟩, executed, rfl⟩
  exact ⟨response, executed⟩

/-- The passwords and clients after a step: nobody new, a new client, or what the
command of a transaction does. -/
theorem administer_cases {action : Administration σ D}
    (stepped : administer config state action = some next) :
    SamePasswords state next ∨
    (∃ slot, next.passwords = state.passwords ∧ next.clients = Function.update state.clients slot
      (newClient config state.passwords state.lastConnectionClientId)) ∨
    ∃ slot password transaction after, action = .execute slot password transaction ∧
      PasswordStep config (transaction.entry (connectedClient state slot) password) state
        transaction.command after ∧
      next.passwords = after.passwords ∧ next.clients = after.clients := by
  cases action with
  | connect =>
      have accepted : acceptClient config state = some next := stepped
      unfold acceptClient at accepted
      split at accepted
      · cases accepted
        exact .inl SamePasswords.refl
      · rcases Option.bind_eq_some_iff.mp accepted with ⟨slot, available, added⟩
        cases added
        exact .inr (.inl ⟨slot, rfl, rfl⟩)
  | disconnect slot =>
      rcases terminateConnection_eq stepped with ⟨id, found, _, _, rfl⟩
      have removed : SamePasswords state (state.updateClient found Client.removed) :=
        SamePasswords.updateClient (fun _ => rfl) fun _ => .inr rfl
      exact .inl { removed with }
  | execute slot password transaction =>
      rcases administer_execute stepped with ⟨response, executed⟩
      rcases executeTransaction_passwordStep executed with ⟨after, step, passwords, clients⟩
      exact .inr (.inr ⟨slot, password, transaction, after, rfl, step, passwords, clients⟩)

/-! ## The list stays in order -/

theorem Accounts.administer {action : Administration σ D} (accounts : Accounts state)
    (stepped : administer config state action = some next) : Accounts next := by
  rcases administer_cases stepped with
    same | ⟨slot, passwords, clients⟩ | ⟨slot, password, transaction, after, _, step, passwords,
      clients⟩
  · exact accounts.same same
  · refine ⟨passwords ▸ accounts.sound, ?_⟩
    intro other id occupied
    rw [passwords]
    rw [clients, Function.update_apply] at occupied ⊢
    split at occupied
    · next here =>
        rw [if_pos here]
        refine .inl ?_
        show (if state.passwords.list.length = 0 then defaultPassword else emptyPassword) < 3
        split <;> decide
    · next elsewhere =>
        rw [if_neg elsewhere]
        exact accounts.held other id occupied
  · have done := accounts.step step
    exact ⟨passwords ▸ done.sound, by rw [passwords, clients]; exact done.held⟩

/-- PWD EDIT or PWD REMOVE names this password. -/
def namesPassword (transaction : Transaction σ D) (input : Bytes) : Prop :=
  pwdArguments "REMOVE" transaction.command transaction.args = some [input] ∨
    ∃ value, pwdArguments "EDIT" transaction.command transaction.args = some [input, value]

/-- The constant passwords, and every password of the list but the named one, stay as
they are, and so do the clients that use one of the list. -/
structure OthersKept (config : Config σ D K) (input : Bytes)
    (state next : State σ D K threads) : Prop where
  constants : ∀ address < 3, next.passwords.objects address = state.passwords.objects address
  listed : ∀ address ∈ state.passwords.list,
    state.passwords.dataOf address ≠ some (config.derive input) →
    address ∈ next.passwords.list ∧
    next.passwords.objects address = state.passwords.objects address
  clients : ∀ slot id, (state.clients slot).id = some id →
    (state.clients slot).password ∈ state.passwords.list →
    state.passwords.dataOf (state.clients slot).password ≠ some (config.derive input) →
    (next.clients slot).password = (state.clients slot).password

theorem pwdArguments_eq_some {subcommand : String} {command : Command σ D}
    {args rest : List Bytes} (asked : pwdArguments subcommand command args = some rest) :
    command = .pwd ∧ ∃ argument, args = argument :: rest ∧
      toUppercase argument = text subcommand := by
  unfold pwdArguments at asked
  split at asked
  · next argument others =>
      split at asked
      · next named =>
          cases asked
          exact ⟨rfl, argument, rfl, named⟩
      · cases asked
  · cases asked

theorem pwdArguments_unique {first second : String} {command : Command σ D}
    {args rest others : List Bytes} (asked : pwdArguments first command args = some rest)
    (also : pwdArguments second command args = some others) :
    text first = text second ∧ rest = others := by
  rcases pwdArguments_eq_some asked with ⟨_, argument, rfl, named⟩
  rcases pwdArguments_eq_some also with ⟨_, other, same, namedAlso⟩
  cases same
  exact ⟨named.symm.trans namedAlso, rfl⟩

theorem OthersKept.edited {input : Bytes} {index : Nat} {permissions : Permissions}
    (accounts : Accounts state)
    (found : state.passwords.wherePassword config input = some index) :
    OthersKept config input state { state with
      passwords := state.passwords.setPermissions (state.passwords.list.getD index 0)
        permissions } := by
  rcases accounts.sound.target found with ⟨low, others⟩
  refine ⟨?_, ?_, fun _ _ _ _ _ => rfl⟩
  · intro address constant
    rw [Passwords.objects_setPermissions,
      if_neg (Nat.ne_of_lt (Nat.lt_of_lt_of_le constant low))]
  · intro address member differs
    rw [Passwords.objects_setPermissions, if_neg (others address differs)]
    exact ⟨member, rfl⟩

theorem OthersKept.removed {client : Option Nat} {input : Bytes} {index : Nat}
    (accounts : Accounts state)
    (found : state.passwords.wherePassword config input = some index)
    (removed : removePassword config state client input = some (next, true)) :
    OthersKept config input state next := by
  rcases accounts.sound.target found with ⟨low, others⟩
  have bound := (Passwords.wherePassword_found found).1
  have objects : next.passwords = state.passwords.release index := by
    rcases removePassword_cases found removed with ⟨_, rfl⟩ | ⟨_, _, _, rfl⟩ <;> rfl
  refine ⟨?_, ?_, ?_⟩
  · intro address constant
    rw [objects, Passwords.objects_release,
      if_neg (Nat.ne_of_lt (Nat.lt_of_lt_of_le constant low))]
  · intro address member differs
    rw [objects, accounts.sound.mem_release bound, Passwords.objects_release,
      if_neg (others address differs)]
    exact ⟨⟨member, others address differs⟩, rfl⟩
  · intro slot id occupied member differs
    rcases removePassword_cases found removed with ⟨_, rfl⟩ | ⟨executor, _, single, rfl⟩
    · rcases password_removed state.clients (state.passwords.list.getD index 0) slot with
        ⟨_, ⟨kept, _⟩ | ⟨same, _⟩⟩
      · exact kept
      · exact absurd same (others _ differs)
    · rcases List.length_eq_one_iff.mp single with ⟨only, list⟩
      have target : state.passwords.list.getD index 0 = only :=
        List.mem_singleton.mp (list ▸ Passwords.getD_mem bound)
      have held := List.mem_singleton.mp (list ▸ member)
      exact absurd (held.trans target.symm) (others _ differs)

/-- PWD EDIT and PWD REMOVE concern the password they name only. -/
theorem OthersKept.administer {slot password : Nat} {transaction : Transaction σ D}
    {input : Bytes} (accounts : Accounts state) (names : namesPassword transaction input)
    (stepped : administer config state (.execute slot password transaction) = some next) :
    OthersKept config input state next := by
  rcases administer_execute stepped with ⟨response, executed⟩
  rcases executeTransaction_passwordStep executed with ⟨after, step, passwords, clients⟩
  have reached : OthersKept config input state after := by
    have isPwd : transaction.command = .pwd := by
      rcases names with removes | ⟨_, edits⟩
      · exact (pwdArguments_eq_some removes).1
      · exact (pwdArguments_eq_some edits).1
    rw [namesPassword, isPwd] at names
    rw [isPwd] at step
    cases step with
    | kept _ _ same =>
        refine ⟨?_, ?_, ?_⟩
        · exact fun _ _ => by rw [same.passwords]
        · exact fun _ member _ => by rw [same.passwords]; exact ⟨member, rfl⟩
        · exact fun slot _ _ _ _ => same.password slot
    | added data value held permissions _ asked =>
        rcases names with removes | ⟨_, edits⟩
        · exact absurd (pwdArguments_unique asked removes).1 (by decide)
        · exact absurd (pwdArguments_unique asked edits).1 (by decide)
    | edited other value target held permissions asked found =>
        rcases names with removes | ⟨_, edits⟩
        · exact absurd (pwdArguments_unique asked removes).1 (by decide)
        · cases (pwdArguments_unique asked edits).2
          exact .edited accounts found
    | removed other index _ asked found removed =>
        rcases names with removes | ⟨_, edits⟩
        · cases (pwdArguments_unique asked removes).2
          exact .removed accounts found removed
        · exact absurd (pwdArguments_unique asked edits).1 (by decide)
  refine ⟨?_, ?_, ?_⟩
  · rw [passwords]
    exact reached.constants
  · rw [passwords]
    exact reached.listed
  · rw [clients]
    exact reached.clients

end Steps

/-! ## Every run -/

section Runs

variable [DecidableEq K]

/-- A command of the client of a slot, with the password the client has. -/
def administered (slot password : Nat) (command : Command Unit Unit) (args : List Bytes) :
    Administration Unit Unit :=
  .execute slot password ⟨command, args, (), ⟨slot, 0⟩⟩

end Runs

end TellyDB.Server
