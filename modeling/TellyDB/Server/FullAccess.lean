import TellyDB.Server.Administration

/-!
Owns the full access of a server without passwords: it is there from the start, and
it is lost for good when the last password is removed again, and only then. Where no
password that is added gets its memory there is none to remove.
-/

namespace TellyDB.Server

open Resp Lib

variable {σ D K : Type} {threads : Nat}

/-! ## The property and the condition -/

/-- While there are no passwords every client, and whoever connects next, has all
permissions; the full password always has. -/
structure FullAccess (config : Config σ D K) (state : State σ D K threads) : Prop where
  clients : state.passwords.list = [] → ∀ slot id, (state.clients slot).id = some id →
    state.passwords.permissions (state.clients slot).password = some Permission.all
  next : state.passwords.list = [] → ∀ id,
    state.passwords.permissions (newClient config state.passwords id).password =
      some Permission.all
  full : state.passwords.permissions fullPassword = some Permission.all

/-- The step is a PWD REMOVE of the only password, by a client that may do it. -/
def takesLastPassword [DecidableEq K] (config : Config σ D K) (state : State σ D K threads) :
    Administration σ D → Bool
  | .execute slot password transaction =>
      (connectedClient state slot).isSome && (state.passwords.permissions password).isSome &&
        !refuses state.passwords password transaction.command &&
        state.passwords.list.length == 1 &&
        match pwdArguments "REMOVE" transaction.command transaction.args with
        | some [input] => (state.passwords.wherePassword config input).isSome
        | _ => false
  | _ => false

/-- No execution of the run gets the memory for a password. -/
def WithoutMemory (config : Config σ D K) (actions : List (Administration σ D)) : Prop :=
  ∀ slot password transaction, .execute slot password transaction ∈ actions →
    config.passwordAllocated transaction.tag = false

/-! ## The invariant -/

/-- Either there never was a password and everybody shares the default one, or the
default one has lost its permissions. -/
structure Claimed (state : State σ D K threads) : Prop where
  accounts : Accounts state
  before : state.passwords.list = [] →
    state.passwords.permissions defaultPassword = some Permission.all ∧
    ∀ slot, (state.clients slot).password = defaultPassword
  after : state.passwords.list ≠ [] →
    state.passwords.permissions defaultPassword = some Permission.none
  full : state.passwords.permissions fullPassword = some Permission.all

section Steps

variable {config : Config σ D K} {state next : State σ D K threads}

theorem Claimed.fullAccess (claimed : Claimed state) : FullAccess config state where
  clients empty slot id occupied := by
    rcases claimed.before empty with ⟨all, shared⟩
    rw [shared slot]
    exact all
  next empty id := by
    have default : (newClient config state.passwords id).password = defaultPassword :=
      if_pos (List.length_eq_zero_iff.mpr empty)
    rw [default]
    exact (claimed.before empty).1
  full := claimed.full

/-- A change of no password. -/
theorem Claimed.same (claimed : Claimed state) (accounts : Accounts next)
    (passwords : next.passwords = state.passwords)
    (password : state.passwords.list = [] → ∀ slot, (next.clients slot).password =
      (state.clients slot).password ∨ (next.clients slot).password = defaultPassword) :
    Claimed next where
  accounts := accounts
  before empty := by
    rw [passwords] at empty ⊢
    rcases claimed.before empty with ⟨all, shared⟩
    refine ⟨all, fun slot => ?_⟩
    rcases password empty slot with same | default
    · rw [same]
      exact shared slot
    · exact default
  after some := by
    rw [passwords] at some ⊢
    exact claimed.after some
  full := by
    rw [passwords]
    exact claimed.full

/-- A change that leaves some password in the list. -/
theorem Claimed.stays (accounts : Accounts next) (kept : next.passwords.list ≠ [])
    (default : next.passwords.permissions defaultPassword = some Permission.none)
    (full : next.passwords.permissions fullPassword = some Permission.all) :
    Claimed next :=
  ⟨accounts, fun empty => absurd empty kept, fun _ => default, full⟩

theorem default_constant : defaultPassword < 3 := by decide

theorem full_constant : fullPassword < 3 := by decide

variable [DecidableEq K]

theorem Claimed.step (claimed : Claimed state) {entry : Entry D} {command : Command σ D}
    (step : PasswordStep config entry state command next)
    (several : ∀ input, pwdArguments "REMOVE" command entry.args = some [input] →
      (state.passwords.wherePassword config input).isSome → entry.client.isSome →
      state.passwords.list.length ≠ 1) : Claimed next := by
  have accounts := claimed.accounts.step step
  have sound := claimed.accounts.sound
  cases step with
  | kept _ _ same =>
      exact claimed.same accounts same.passwords fun _ slot => .inl (same.password slot)
  | authorized slot index input own found =>
      have bound := (Passwords.wherePassword_found found).1
      refine claimed.same accounts rfl fun empty => ?_
      rw [empty] at bound
      cases bound
  | added data value held permissions _ asked absent holds allowed allocated added =>
      rcases addPassword_cases added with ⟨others, rfl⟩ | ⟨slot, _, empty, rfl⟩
      · apply Claimed.stays accounts (List.concat_ne_nil _ _)
        · rw [Passwords.permissions_allocate _ (sound.constant_ne_next default_constant)]
          exact claimed.after others
        · rw [Passwords.permissions_allocate _ (sound.constant_ne_next full_constant)]
          exact claimed.full
      · rcases claimed.before empty with ⟨all, shared⟩
        have emptied := sound.setPermissions defaultPassword Permission.none
        rw [shared slot]
        apply Claimed.stays (by rw [← shared slot]; exact accounts) (List.concat_ne_nil _ _)
        · rw [Passwords.permissions_allocate _ (emptied.constant_ne_next default_constant),
            Passwords.permissions_setPermissions, if_pos rfl, all]
          rfl
        · rw [Passwords.permissions_allocate _ (emptied.constant_ne_next full_constant),
            Passwords.permissions_setPermissions, if_neg (by decide)]
          exact claimed.full
  | edited input value target held permissions asked found holds allowed =>
      have bound := (Passwords.wherePassword_found found).1
      have member := Passwords.getD_mem bound
      refine Claimed.stays accounts (List.ne_nil_of_mem member) ?_ ?_
      · rw [Passwords.permissions_setPermissions, if_neg (sound.constant_ne_getD default_constant bound)]
        exact claimed.after (List.ne_nil_of_mem member)
      · rw [Passwords.permissions_setPermissions, if_neg (sound.constant_ne_getD full_constant bound)]
        exact claimed.full
  | removed input index _ asked found removed =>
      have bound := (Passwords.wherePassword_found found).1
      have member := Passwords.getD_mem bound
      rcases removePassword_cases found removed with ⟨others, rfl⟩ | ⟨slot, own, single, _⟩
      · refine Claimed.stays accounts ?_ ?_ ?_
        · intro empty
          have length := List.length_eraseIdx_of_lt bound
          rw [show state.passwords.list.eraseIdx index = [] from empty] at length
          simp only [List.length_nil] at length
          omega
        · rw [Passwords.permissions_release (sound.constant_ne_getD default_constant bound)]
          exact claimed.after (List.ne_nil_of_mem member)
        · rw [Passwords.permissions_release (sound.constant_ne_getD full_constant bound)]
          exact claimed.full
      · exact absurd single
          (several input asked (by rw [found]; rfl) (by rw [own]; rfl))

theorem Claimed.administer {action : Administration σ D} (claimed : Claimed state)
    (spared : takesLastPassword config state action = false)
    (stepped : administer config state action = some next) : Claimed next := by
  have accounts := claimed.accounts.administer stepped
  rcases administer_cases stepped with same | ⟨slot, passwords, clients⟩ |
    ⟨slot, password, transaction, after, rfl, step, passwords, clients⟩
  · exact claimed.same accounts same.passwords fun _ slot => .inl (same.password slot)
  · refine claimed.same accounts passwords fun empty other => ?_
    rw [clients, Function.update_apply]
    split
    · exact .inr (if_pos (List.length_eq_zero_iff.mpr empty))
    · exact .inl rfl
  · rcases administer_execute stepped with ⟨response, executed⟩
    cases refused : refuses state.passwords password transaction.command with
    | true =>
        rcases executeTransaction_refused executed refused with ⟨_, _, _, rfl⟩
        refine claimed.same accounts ?_ fun _ other => .inl ?_
        · rw [writeMessage, writeToSocket_eq]
          rfl
        · rw [writeMessage, writeToSocket_eq]
          rfl
    | false =>
        have allowed : (state.passwords.permissions password).isSome := by
          rcases Option.bind_eq_some_iff.mp executed with ⟨held, holds, _⟩
          rw [holds]
          rfl
        have done := claimed.step step fun input asked found connected single => by
          have asked : pwdArguments "REMOVE" transaction.command transaction.args =
            some [input] := asked
          have connected : (connectedClient state slot).isSome := connected
          simp [takesLastPassword, connected, allowed, refused, single, asked, found] at spared
        refine ⟨accounts, ?_, ?_, ?_⟩
        · rw [passwords, clients]
          exact done.before
        · rw [passwords]
          exact done.after
        · rw [passwords]
          exact done.full

/-- PWD REMOVE as its client sees it. -/
theorem runPwd_removed {entry : Entry D} {slot : Nat} {argument input : Bytes}
    (own : entry.client = some slot) (args : entry.args = [argument, input])
    (named : toUppercase argument = text "REMOVE")
    (removed : removePassword config state entry.client input = some (next, true)) :
    runPwd config state entry = some (next, Response.literal respOk) := by
  have removes : removePwd config state entry = some (next, Response.literal respOk) := by
    rw [removePwd, args]
    show Option.bind _ _ = _
    rw [removed, own]
    rfl
  rw [runPwd, args]
  show Option.bind (pwdSubcommand config state entry (toUppercase argument)) _ = _
  have notAdd : text "REMOVE" ≠ text "ADD" := by decide
  have notEdit : text "REMOVE" ≠ text "EDIT" := by decide
  rw [pwdSubcommand, named, if_neg notAdd, if_neg notEdit, if_pos rfl, removes, own]
  rfl

/-- The last password can be removed by any client, and the default one stays as it is. -/
theorem removePassword_last {client : Option Nat} {slot index : Nat} {input : Bytes}
    (own : client = some slot)
    (found : state.passwords.wherePassword config input = some index)
    (single : state.passwords.list.length = 1) :
    ∃ next, removePassword config state client input = some (next, true) ∧
      next.passwords = state.passwords.release index := by
  rw [removePassword, found]
  show ∃ next, Option.bind (releaseLastPassword state client) _ = _ ∧ _
  rw [releaseLastPassword, if_pos single, own]
  exact ⟨_, rfl, rfl⟩

/-- A command that runs. -/
theorem executeTransaction_ran {client : Option Nat} {password : Nat}
    {transaction : Transaction σ D} {block : Option Tag} {response : Response}
    (allowed : (state.passwords.permissions password).isSome)
    (granted : refuses state.passwords password transaction.command = false)
    (ran : transaction.command.runOn config state (transaction.entry client password) =
      some (next, response)) :
    executeTransaction config state client password transaction block =
      some (next.record [.executed ⟨transaction, password, client.isSome, block, response.bytes⟩],
        response) := by
  rcases Option.isSome_iff_exists.mp allowed with ⟨held, holds⟩
  rw [refuses, holds, Option.any_some, bne_eq_false_iff_eq] at granted
  rw [executeTransaction, holds]
  show (if _ then _ else _) = _
  rw [if_neg (not_not.mpr granted)]
  show Option.bind _ _ = _
  rw [ran]
  rfl

/-- The last password can always be removed, and then the next client has no permission. -/
theorem Claimed.broken {action : Administration σ D} (claimed : Claimed state)
    (takes : ¬takesLastPassword config state action = false) :
    ∃ next, Server.administer config state action = some next ∧ ¬FullAccess config next := by
  rw [Bool.not_eq_false] at takes
  cases action with
  | connect => cases takes
  | disconnect slot => cases takes
  | execute slot password transaction =>
      simp only [takesLastPassword, Bool.and_eq_true, Bool.not_eq_true', beq_iff_eq] at takes
      rcases takes with ⟨⟨⟨⟨connected, allowed⟩, granted⟩, single⟩, names⟩
      split at names
      · next input asked =>
          rcases Option.isSome_iff_exists.mp connected with ⟨occupant, own⟩
          rcases Option.isSome_iff_exists.mp allowed with ⟨held, holds⟩
          rcases Option.isSome_iff_exists.mp names with ⟨index, found⟩
          rcases pwdArguments_eq_some asked with ⟨command, argument, args, named⟩
          rcases removePassword_last own found single with ⟨next, removed, passwords⟩
          have ran : transaction.command.runOn config state (transaction.entry
              (connectedClient state slot) password) = some (next, Response.literal respOk) := by
            rw [command]
            exact runPwd_removed own args named removed
          have executed : executeTransaction config state (connectedClient state slot) password
              transaction none = some (_, Response.literal respOk) :=
            executeTransaction_ran allowed granted ran
          refine ⟨_, congrArg (Option.map Prod.fst) executed, ?_⟩
          intro access
          have bound := (Passwords.wherePassword_found found).1
          have list : next.passwords.list = [] := by
            rw [passwords]
            apply List.eq_nil_of_length_eq_zero
            exact (List.length_eraseIdx_of_lt bound).trans (by rw [single])
          have everything : next.passwords.permissions
              (newClient config next.passwords 0).password = some Permission.all :=
            access.next list 0
          have default : (newClient config next.passwords 0).password = defaultPassword :=
            if_pos (List.length_eq_zero_iff.mpr list)
          rw [default, passwords, Passwords.permissions_release
            (claimed.accounts.sound.constant_ne_getD default_constant bound),
            claimed.after (List.ne_nil_of_length_pos (by omega))] at everything
          exact absurd everything (by decide)
      · cases names

/-! ## A server that cannot allocate a password -/

theorem PasswordStep.stays_empty {entry : Entry D} {command : Command σ D}
    (step : PasswordStep config entry state command next)
    (failed : config.passwordAllocated entry.tag = false)
    (empty : state.passwords.list = []) : next.passwords.list = [] := by
  have absent : ∀ {input : Bytes} {index : Nat},
      state.passwords.wherePassword config input ≠ some index := by
    intro input index found
    have bound := (Passwords.wherePassword_found found).1
    rw [empty] at bound
    cases bound
  cases step with
  | kept _ _ same =>
      rw [same.passwords]
      exact empty
  | authorized slot index input own found => exact absurd found absent
  | added data value held permissions _ _ _ _ _ allocated =>
      rw [failed] at allocated
      cases allocated
  | edited input value target held permissions _ found => exact absurd found absent
  | removed input index _ _ found => exact absurd found absent

theorem administer_stays_empty {actions : List (Administration σ D)} {action : Administration σ D}
    (failed : WithoutMemory config actions) (member : action ∈ actions)
    (empty : state.passwords.list = []) (stepped : administer config state action = some next) :
    next.passwords.list = [] := by
  rcases administer_cases stepped with same | ⟨slot, passwords, _⟩ |
    ⟨slot, password, transaction, after, rfl, step, passwords, _⟩
  · rw [same.passwords]
    exact empty
  · rw [passwords]
    exact empty
  · rw [passwords]
    exact step.stays_empty (failed slot password transaction member) empty

theorem takesLastPassword_of_empty (action : Administration σ D)
    (empty : state.passwords.list = []) : takesLastPassword config state action = false := by
  cases action with
  | connect => rfl
  | disconnect slot => rfl
  | execute slot password transaction => simp [takesLastPassword, empty]

end Steps

/-! ## Every run -/

section Runs

theorem claimed_start (config : Config σ D K) (databases : σ) :
    Claimed (start config databases [] : State σ D K threads) where
  accounts := accounts_start config databases (List.forall_mem_nil _) List.nodup_nil
  before _ := ⟨rfl, fun _ => rfl⟩
  after listed := absurd rfl listed
  full := rfl

variable [DecidableEq K]

/-- In a run of a server that starts without passwords, full access holds in every state
reached exactly when no step removes the last password; without memory for passwords no step
does. -/
theorem fullAccess_iff (config : Config σ D K) (databases : σ)
    (actions : List (Administration σ D)) :
    ((∀ first, first <+: actions → ∀ state : State σ D K threads,
      Transition.run (administer config) (start config databases []) first = some state →
      FullAccess config state) ↔
    Transition.Guarded (administer config)
      (fun state action => takesLastPassword config state action = false)
      (start config databases [] : State σ D K threads) actions) ∧
    (WithoutMemory config actions →
      Transition.Guarded (administer config)
        (fun state action => takesLastPassword config state action = false)
        (start config databases [] : State σ D K threads) actions) := by
  constructor
  · exact Transition.reached_iff_guarded
      (fun _ _ _ (claimed : Claimed _) spared stepped => claimed.administer spared stepped)
      (fun _ claimed => claimed.fullAccess) (fun _ _ claimed takes => claimed.broken takes)
      (claimed_start config databases)
  · intro failed
    exact Transition.guarded_of_invariant
      (fun _ member _ _ empty stepped => administer_stays_empty failed member empty stepped)
      (fun action _ _ empty => takesLastPassword_of_empty action empty) rfl

/-- Pointers of 4 bytes, for which `posix_memalign` takes the alignment of a password. -/
def narrowConfig : Config Unit Unit Bytes := { sampleConfig with passwordAllocated := fun _ => true }

/-- A client adds a password and removes it, and adds one again. -/
def passwordAddedAgain : List (Administration Unit Unit) :=
  [.connect, administered 1 0 .pwd [text "ADD", text "p", text "all"],
    administered 1 2 .pwd [text "REMOVE", text "p"], .connect,
    administered 1 2 .pwd [text "ADD", text "q", text "all"]]

/-- After the removal nobody but the first client has a permission left, and after the
second addition not even the full password grants one. -/
theorem fullAccess_fails_after_removal :
    ¬∀ first, first <+: passwordAddedAgain → ∀ state : State Unit Unit Bytes 2,
      Transition.run (administer narrowConfig) (start narrowConfig () []) first = some state →
      FullAccess narrowConfig state := by
  intro always
  have reached : (Transition.run (administer narrowConfig)
      (start narrowConfig () [] : State Unit Unit Bytes 2) passwordAddedAgain).any (fun state =>
        state.passwords.permissions fullPassword == some Permission.none) = true := by
    decide +kernel
  rcases (Option.any_eq_true _ _).mp reached with ⟨state, ran, nothing⟩
  have access := always passwordAddedAgain List.prefix_rfl state ran
  rw [access.full] at nothing
  exact absurd nothing (by decide)

end Runs

end TellyDB.Server
