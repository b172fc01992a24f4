import TellyDB.Server.PasswordTable

/-!
Owns what the permissions argument of `PWD ADD` and `PWD EDIT` does: which of its bytes
`read_permissions_value` looks at, and for which arguments the password gets what they name.
-/

namespace TellyDB.Server

open Resp

variable {σ D K : Type} {threads : Nat}

/-! ## What the letters name -/

/-- The permission that a letter of the argument names. -/
def namedPermission (byte : UInt8) : Option Permissions :=
  if byte = 0x72 then some Permission.read
  else if byte = 0x77 then some Permission.write
  else if byte = 0x63 then some Permission.client
  else if byte = 0x6f then some Permission.config
  else if byte = 0x61 then some Permission.auth
  else if byte = 0x73 then some Permission.server
  else none

/-- The union of the permissions that are named. -/
def namedPermissions (value : Bytes) : Permissions :=
  value.foldr (fun byte permissions => (namedPermission byte).getD Permission.none ||| permissions)
    Permission.none

/-- Some byte is no letter, or names a permission that the executor lacks. -/
def Improper (held : Permissions) (value : Bytes) : Prop :=
  ∃ byte ∈ value, namedPermission byte = none ∨
    ∃ permission ∈ namedPermission byte, ~~~held &&& permission ≠ 0

/-- The subcommands of `PWD` that take permissions. -/
inductive PwdWrite where
  | add
  | edit

namespace PwdWrite

def subcommand : PwdWrite → String
  | add => "ADD"
  | edit => "EDIT"

/-- The function behind the subcommand. -/
def run [DecidableEq K] (config : Config σ D K) (state : State σ D K threads) (entry : Entry D) :
    PwdWrite → Outcome σ D K threads
  | add => addPwd config state entry
  | edit => editPwd config state entry

/-- A password is added when there is none, and edited when there is one. -/
def Applies [DecidableEq K] (config : Config σ D K) (passwords : Passwords K) (name : Bytes) :
    PwdWrite → Prop
  | add => passwords.wherePassword config name = none
  | edit => passwords.wherePassword config name ≠ none

/-- The memory that the subcommand needs: ADD allocates the password, EDIT has it. -/
def Allocated (config : Config σ D K) (entry : Entry D) : PwdWrite → Prop
  | add => config.passwordAllocated entry.tag = true
  | edit => True

end PwdWrite

/-- What the password with this text grants. -/
def Passwords.granted [DecidableEq K] (config : Config σ D K) (passwords : Passwords K)
    (name : Bytes) : Option Permissions :=
  (passwords.wherePassword config name).bind fun index =>
    passwords.permissions (passwords.list.getD index 0)

/-- The reply is an error, and the passwords are what they were. -/
def Refused (state next : State σ D K threads) (response : Response) : Prop :=
  response.bytes.head? = some 0x2d ∧ next.passwords = state.passwords

/-- Only entries of `permissions_mapping` are looked up, what is refused is what should be, and
otherwise the password grants the union of what the argument names. -/
def Heeds [DecidableEq K] (config : Config σ D K) (state : State σ D K threads) (entry : Entry D)
    (write : PwdWrite) (held : Permissions) (name value : Bytes) : Prop :=
  ∃ next response, runPwd config state entry = some (next, response) ∧
    (Refused state next response ↔
      ¬write.Applies config state.passwords name ∨ Improper held value) ∧
    (¬Refused state next response →
      next.passwords.granted config name = some (namedPermissions value))

/-! ## When it is as it should be -/

/-- A byte that the loop passes: one of the table without a permission. -/
def Passed (byte : UInt8) : Prop := byte ≤ 0x77 ∧ namedPermission byte = none

/-- The loop passes all bytes that it looks at. -/
def PassedOver (value : Bytes) : Prop := ∀ byte ∈ value.drop 1, Passed byte

/-- Behind the first byte there is a letter, and the loop passes what is behind that. -/
def StoppedAt (value : Bytes) : Prop :=
  ∃ before letter after, value.drop 1 = before ++ letter :: after ∧
    (namedPermission letter).isSome ∧ ∀ byte ∈ after, Passed byte

/-- The argument is empty, or it names something and should be refused. Where there is no memory for
the password, all that should be refused is; where the command is refused anyway, only the lookups
count, and EDIT of no password looks nothing up. -/
def Heedable [DecidableEq K] (config : Config σ D K) (passwords : Passwords K) (entry : Entry D)
    (write : PwdWrite) (held : Permissions) (name value : Bytes) : Prop :=
  (write.Applies config passwords name → write.Allocated config entry →
      value = [] ∨ StoppedAt value ∧ Improper held value) ∧
    (write.Applies config passwords name → ¬write.Allocated config entry →
      (StoppedAt value ∨ PassedOver value) ∧ Improper held value) ∧
    (write = .add → ¬write.Applies config passwords name → StoppedAt value ∨ PassedOver value)

/-! ## The table -/

theorem permissionsMapping_of_named {byte : UInt8} {permission : Permissions}
    (named : namedPermission byte = some permission) :
    permissionsMapping byte = some permission ∧ permission ≠ Permission.none := by
  unfold namedPermission at named
  unfold permissionsMapping
  split_ifs at named ⊢ <;> cases named <;> exact ⟨rfl, by decide⟩

theorem permissionsMapping_of_unnamed {byte : UInt8} (unnamed : namedPermission byte = none) :
    permissionsMapping byte = if byte ≤ 0x77 then some Permission.none else none := by
  unfold namedPermission at unnamed
  unfold permissionsMapping
  split_ifs at unnamed ⊢ <;> rfl

/-! ## The loop -/

theorem loop_passes {bytes : List UInt8} (passed : ∀ byte ∈ bytes, Passed byte)
    (rest : List UInt8) :
    readPermissionsValue.loop (bytes ++ rest) = readPermissionsValue.loop rest := by
  induction bytes with
  | nil => rfl
  | cons byte bytes inductionHypothesis =>
      have ⟨inside, unnamed⟩ := passed byte List.mem_cons_self
      rw [List.cons_append, readPermissionsValue.loop, permissionsMapping_of_unnamed unnamed,
        if_pos inside]
      exact inductionHypothesis fun byte member => passed byte (List.mem_cons_of_mem _ member)

theorem loop_stops {letter : UInt8} (named : (namedPermission letter).isSome)
    (rest : List UInt8) :
    readPermissionsValue.loop (letter :: rest) = some (.error letter) := by
  obtain ⟨permission, named⟩ := Option.isSome_iff_exists.mp named
  have ⟨mapped, granting⟩ := permissionsMapping_of_named named
  rw [readPermissionsValue.loop, mapped]
  exact if_neg granting

/-- The loop passes everything, or stops at a letter, or looks something up outside. -/
theorem loop_cases (bytes : List UInt8) :
    (∀ byte ∈ bytes, Passed byte) ∨
      (∃ before letter after, bytes = before ++ letter :: after ∧
        (∀ byte ∈ before, Passed byte) ∧ (namedPermission letter).isSome) ∨
      readPermissionsValue.loop bytes = none := by
  induction bytes with
  | nil => exact .inl (List.forall_mem_nil _)
  | cons byte bytes inductionHypothesis =>
      cases named : namedPermission byte with
      | some permission =>
          exact .inr (.inl ⟨[], byte, bytes, rfl, List.forall_mem_nil _, by rw [named]; rfl⟩)
      | none =>
          by_cases inside : byte ≤ 0x77
          · rcases inductionHypothesis with all | ⟨before, letter, after, rfl, passed, some⟩ | out
            · exact .inl (List.forall_mem_cons.mpr ⟨⟨inside, named⟩, all⟩)
            · exact .inr (.inl ⟨byte :: before, letter, after, rfl,
                List.forall_mem_cons.mpr ⟨⟨inside, named⟩, passed⟩, some⟩)
            · have passes := loop_passes (List.forall_mem_singleton.mpr ⟨inside, named⟩) bytes
              exact .inr (.inr (passes.trans out))
          · apply Or.inr
            apply Or.inr
            rw [readPermissionsValue.loop, permissionsMapping_of_unnamed named, if_neg inside]
            rfl

/-- The byte behind the argument, at which the loop starts, is a line end or a NUL and changes
nothing. -/
theorem readPermissionsValue_behind {value : Bytes} {behind : UInt8}
    (ends : behind = 0x0d ∨ behind = 0) :
    readPermissionsValue.loop ((value ++ [behind]).drop 1).reverse =
      readPermissionsValue value := by
  have passed : Passed behind := by
    rcases ends with rfl | rfl
    · exact ⟨by decide, by decide⟩
    · exact ⟨by decide, by decide⟩
  cases value with
  | nil => rfl
  | cons first value =>
      have reversed : ((first :: value ++ [behind]).drop 1).reverse = [behind] ++ value.reverse := by
        simp
      rw [reversed, loop_passes (List.forall_mem_singleton.mpr passed)]
      rfl

theorem readPermissionsValue_of_passedOver {value : Bytes} (passed : PassedOver value) :
    readPermissionsValue value = some (.ok Permission.none) := by
  have passedBack : ∀ byte ∈ (value.drop 1).reverse, Passed byte := by
    simpa only [List.mem_reverse, PassedOver] using passed
  have passes := loop_passes passedBack []
  rwa [List.append_nil] at passes

theorem readPermissionsValue_of_stoppedAt {value : Bytes} (stopped : StoppedAt value) :
    ∃ letter, readPermissionsValue value = some (.error letter) := by
  obtain ⟨before, letter, after, split, named, passed⟩ := stopped
  have passedBack : ∀ byte ∈ after.reverse, Passed byte := by
    simpa only [List.mem_reverse] using passed
  have passes := loop_passes passedBack (letter :: before.reverse)
  apply Exists.intro letter
  rw [readPermissionsValue, split, List.reverse_append, List.reverse_cons, List.append_assoc]
  exact passes.trans (loop_stops named _)

theorem readPermissionsValue_cases (value : Bytes) :
    PassedOver value ∨ StoppedAt value ∨ readPermissionsValue value = none := by
  rcases loop_cases (value.drop 1).reverse with all | ⟨before, letter, after, split, passed, named⟩ |
    outside
  · exact .inl fun byte member => all byte (List.mem_reverse.mpr member)
  · apply Or.inr
    apply Or.inl
    have forwards := congrArg List.reverse split
    refine ⟨after.reverse, letter, before.reverse, ?_, named, ?_⟩
    · simpa using forwards
    · simpa only [List.mem_reverse] using passed
  · exact .inr (.inr outside)

/-! ## What is named -/

/-- Nothing is lacking in an argument of letters whose permissions are held. -/
theorem namedPermissions_ne_none {held : Permissions} {value : Bytes} (some : value ≠ [])
    (proper : ¬Improper held value) : namedPermissions value ≠ Permission.none := by
  cases value with
  | nil => exact absurd rfl some
  | cons first value =>
      cases named : namedPermission first with
      | none => exact absurd ⟨first, List.mem_cons_self, .inl named⟩ proper
      | some permission =>
          have granting := (permissionsMapping_of_named named).2
          rw [namedPermissions, List.foldr_cons, named, Option.getD_some]
          intro vanishes
          exact granting (BitVec.or_eq_zero_iff.mp vanishes).1

/-! ## The argument in the commands -/

section Requests

variable {state : State σ D K threads} {entry : Entry D} {slot : Nat} {held : Permissions}
  {value : Bytes}

theorem requestedPermissions_of_passedOver {rest : Permissions → Outcome σ D K threads}
    (holds : state.passwords.permissions entry.password = some held) (other : value ≠ text "all")
    (passed : PassedOver value) :
    requestedPermissions state entry value rest = rest Permission.none := by
  rw [requestedPermissions, readPermissions, if_neg other,
    readPermissionsValue_of_passedOver passed]
  simp [holds, Permission.none]

/-- The reply names the letter. -/
theorem requestedPermissions_of_stoppedAt (rest : Permissions → Outcome σ D K threads)
    (own : entry.client = some slot) (other : value ≠ text "all") (stopped : StoppedAt value) :
    ∃ next response, requestedPermissions state entry value rest = some (next, response) ∧
      Refused state next response := by
  obtain ⟨letter, read⟩ := readPermissionsValue_of_stoppedAt stopped
  rw [requestedPermissions, readPermissions, if_neg other, read]
  simp only [Option.bind_eq_bind, Option.bind_some, own]
  have short : (text "-Invalid permission: '" ++ [letter] ++ text "'" ++ crlf).length ≤
      maxResponseSize := by
    simp only [List.length_append, List.length_singleton]
    decide
  rw [bufferedReply, if_pos short]
  exact ⟨_, _, rfl, rfl, rfl⟩

theorem requestedPermissions_of_outside {rest : Permissions → Outcome σ D K threads}
    (other : value ≠ text "all") (outside : readPermissionsValue value = none) :
    requestedPermissions state entry value rest = none := by
  rw [requestedPermissions, readPermissions, if_neg other, outside]
  rfl

end Requests

/-! ## The password that is written -/

namespace Passwords

variable [DecidableEq K] {config : Config σ D K} {passwords : Passwords K} {name : Bytes}

theorem wherePassword_eq : passwords.wherePassword config name =
    passwords.list.findIdx? fun address => decide (passwords.dataOf address =
      some (config.derive name)) := by
  rw [wherePassword]
  congr 1
  funext address
  rw [dataOf]
  cases passwords.objects address <;> simp

theorem wherePassword_setPermissions (address : Nat) (permissions : Permissions) :
    (passwords.setPermissions address permissions).wherePassword config name =
      passwords.wherePassword config name := by
  simp only [wherePassword_eq, dataOf_setPermissions]
  rfl

theorem granted_setPermissions {index : Nat} (permissions : Permissions)
    (found : passwords.wherePassword config name = some index) :
    (passwords.setPermissions (passwords.list.getD index 0) permissions).granted config name =
      some permissions := by
  obtain ⟨object, present, _⟩ := Option.bind_eq_some_iff.mp (wherePassword_found found).2
  rw [granted, wherePassword_setPermissions, found]
  show (passwords.setPermissions _ permissions).permissions (passwords.list.getD index 0) = _
  rw [permissions_setPermissions, if_pos rfl, Passwords.permissions, present]
  rfl

theorem granted_allocate (sound : passwords.Sound) (permissions : Permissions)
    (absent : passwords.wherePassword config name = none) :
    (passwords.allocate ⟨some (config.derive name), permissions⟩).granted config name =
      some permissions := by
  have old : ∀ address ∈ passwords.list,
      (passwords.allocate ⟨some (config.derive name), permissions⟩).dataOf address ≠
        some (config.derive name) := by
    intro address member
    rw [dataOf_allocate, if_neg (Nat.ne_of_lt (sound.listed address member).2.1)]
    exact wherePassword_absent absent address member
  have found : (passwords.allocate ⟨some (config.derive name), permissions⟩).wherePassword config
      name = some passwords.list.length := by
    rw [wherePassword_eq]
    show (passwords.list ++ [passwords.nextAddress]).findIdx? _ = _
    rw [List.findIdx?_append, List.findIdx?_eq_none_iff.mpr]
    · simp [dataOf_allocate]
    · intro address member
      exact decide_eq_false (old address member)
  rw [granted, found]
  show (passwords.allocate _).permissions
    ((passwords.list ++ [passwords.nextAddress]).getD passwords.list.length 0) = _
  simp [Passwords.permissions, objects_allocate]

end Passwords

section Writing

variable [DecidableEq K] {config : Config σ D K} {state : State σ D K threads} {entry : Entry D}
  {slot : Nat} {held permissions : Permissions} {argument name value : Bytes}

theorem addPassword_granted (slot : Nat) (permissions : Permissions)
    (sound : state.passwords.Sound) (absent : state.passwords.wherePassword config name = none) :
    ∃ next, addPassword config state (some slot) name permissions true = some (next, true) ∧
      next.passwords.granted config name = some permissions := by
  by_cases empty : state.passwords.list.length = 0
  · rw [addPassword, if_neg Bool.noConfusion, claimFirstPassword, if_pos empty]
    refine ⟨_, rfl, ?_⟩
    apply Passwords.granted_allocate (sound.setPermissions _ _)
    exact (Passwords.wherePassword_setPermissions _ _).trans absent
  · rw [addPassword, if_neg Bool.noConfusion, claimFirstPassword, if_neg empty]
    exact ⟨_, rfl, Passwords.granted_allocate sound permissions absent⟩

/-- `PWD` runs the subcommand, for a client that is there. -/
theorem runPwd_eq {write : PwdWrite} (own : entry.client = some slot)
    (args : entry.args = [argument, name, value])
    (named : toUppercase argument = text write.subcommand) :
    runPwd config state entry = write.run config state entry := by
  have kept : ∀ outcome : Outcome σ D K threads, (outcome.bind fun result =>
      passNoClient result.1 entry.client fun _ => some result) = outcome := by
    intro outcome
    cases outcome with
    | none => rfl
    | some result => simp [passNoClient, own]
  rw [runPwd, args]
  show ((pwdSubcommand config state entry (toUppercase argument)).bind fun result =>
    passNoClient result.1 entry.client fun _ => some result) = _
  rw [kept, named, pwdSubcommand]
  cases write with
  | add => exact if_pos rfl
  | edit => exact (if_neg (by decide)).trans (if_pos rfl)

/-- What ADD and EDIT do once the argument is read. -/
theorem runPwd_applies {write : PwdWrite} (sound : state.passwords.Sound)
    (own : entry.client = some slot) (args : entry.args = [argument, name, value])
    (named : toUppercase argument = text write.subcommand)
    (applies : write.Applies config state.passwords name)
    (allocated : write.Allocated config entry) :
    ∃ rest : Permissions → Outcome σ D K threads,
      runPwd config state entry = requestedPermissions state entry value rest ∧
        ∀ permissions, ∃ next, rest permissions = some (next, Response.literal respOk) ∧
          next.passwords.granted config name = some permissions := by
  rw [runPwd_eq own args named]
  cases write with
  | add =>
      have absent : state.passwords.wherePassword config name = none := applies
      have created : config.passwordAllocated entry.tag = true := allocated
      simp only [PwdWrite.run, addPwd, args, absent, created]
      refine ⟨_, rfl, ?_⟩
      intro permissions
      obtain ⟨next, added, granted⟩ :=
        addPassword_granted slot permissions sound absent
      rw [own, added]
      exact ⟨next, rfl, granted⟩
  | edit =>
      obtain ⟨index, found⟩ := Option.ne_none_iff_exists'.mp applies
      simp only [PwdWrite.run, editPwd, args, found]
      refine ⟨_, rfl, ?_⟩
      intro permissions
      rw [own]
      exact ⟨_, rfl, Passwords.granted_setPermissions permissions found⟩

/-- ADD reads the argument, and then has no memory for the password. -/
theorem runPwd_add_unallocated (own : entry.client = some slot)
    (args : entry.args = [argument, name, value])
    (named : toUppercase argument = text PwdWrite.add.subcommand)
    (absent : state.passwords.wherePassword config name = none)
    (failed : config.passwordAllocated entry.tag = false) :
    runPwd config state entry = requestedPermissions state entry value fun _ =>
      literalReply state (respErrorMessage "Password cannot be created") := by
  rw [runPwd_eq own args named]
  simp only [PwdWrite.run, addPwd, args, absent, failed, addPassword, own]
  rfl

/-- ADD of a password that exists reads the argument all the same. -/
theorem runPwd_add_existing (own : entry.client = some slot)
    (args : entry.args = [argument, name, value])
    (named : toUppercase argument = text PwdWrite.add.subcommand)
    (taken : state.passwords.wherePassword config name ≠ none) :
    runPwd config state entry = requestedPermissions state entry value fun _ =>
      literalReply state (respErrorMessage "This password already exists") := by
  obtain ⟨index, found⟩ := Option.ne_none_iff_exists'.mp taken
  rw [runPwd_eq own args named]
  simp only [PwdWrite.run, addPwd, args, found]

/-- EDIT of a password that does not exist does not. -/
theorem runPwd_edit_absent (own : entry.client = some slot)
    (args : entry.args = [argument, name, value])
    (named : toUppercase argument = text PwdWrite.edit.subcommand)
    (absent : state.passwords.wherePassword config name = none) :
    runPwd config state entry =
      literalReply state (respErrorMessage "This password does not exist") := by
  rw [runPwd_eq own args named]
  simp only [PwdWrite.run, editPwd, args, absent, own, passNoClient]

/-! ## When the argument is heeded -/

omit [DecidableEq K] in
theorem not_refused_respOk {next : State σ D K threads} :
    ¬Refused state next (Response.literal respOk) := by
  rintro ⟨error, _⟩
  cases error

/-- A command that reads the argument and would write what is read. -/
theorem heeds_iff_of_applies {write : PwdWrite} (sound : state.passwords.Sound)
    (own : entry.client = some slot) (holds : state.passwords.permissions entry.password =
      some held) (args : entry.args = [argument, name, value])
    (named : toUppercase argument = text write.subcommand) (other : value ≠ text "all")
    (applies : write.Applies config state.passwords name)
    (allocated : write.Allocated config entry) :
    Heeds config state entry write held name value ↔
      value = [] ∨ StoppedAt value ∧ Improper held value := by
  obtain ⟨rest, ran, writes⟩ := runPwd_applies sound own args named applies allocated
  rw [Heeds, ran]
  simp only [applies, not_true_eq_false, false_or]
  rcases readPermissionsValue_cases value with passed | stopped | outside
  · obtain ⟨written, done, grants⟩ := writes Permission.none
    rw [requestedPermissions_of_passedOver holds other passed, done]
    constructor
    · rintro ⟨next, response, result, refused, granted⟩
      cases result
      have proper : ¬Improper held value := fun improper =>
        not_refused_respOk (refused.mpr improper)
      have names := (grants.symm.trans (granted not_refused_respOk))
      by_contra either
      have some : value ≠ [] := fun empty => either (.inl empty)
      exact namedPermissions_ne_none some proper (Option.some.inj names).symm
    · rintro (rfl | ⟨⟨before, letter, after, split, letterNamed, _⟩, _⟩)
      · refine ⟨_, _, rfl, ?_, fun _ => grants⟩
        simp [not_refused_respOk, Improper]
      · have unnamed := (passed letter (split ▸ List.mem_append_right _ List.mem_cons_self)).2
        rw [unnamed] at letterNamed
        cases letterNamed
  · obtain ⟨next, response, result, refused⟩ :=
      requestedPermissions_of_stoppedAt rest own other stopped
    rw [result]
    constructor
    · rintro ⟨_, _, same, improper, _⟩
      cases same
      exact .inr ⟨stopped, improper.mp refused⟩
    · rintro (rfl | ⟨_, improper⟩)
      · obtain ⟨before, letter, after, split, _⟩ := stopped
        simp at split
      · exact ⟨_, _, rfl, iff_of_true refused improper, fun accepted => absurd refused accepted⟩
  · rw [requestedPermissions_of_outside other outside]
    constructor
    · rintro ⟨_, _, result, _⟩
      cases result
    · rintro (rfl | ⟨stopped, _⟩)
      · cases outside
      · obtain ⟨letter, read⟩ := readPermissionsValue_of_stoppedAt stopped
        rw [read] at outside
        cases outside

/-- A command that reads the argument and is refused whatever it asks for. -/
theorem heeds_iff_of_failing {write : PwdWrite} {message : String} (own : entry.client = some slot)
    (holds : state.passwords.permissions entry.password = some held) (other : value ≠ text "all")
    (ran : runPwd config state entry = requestedPermissions state entry value fun _ =>
      literalReply state (respErrorMessage message)) :
    Heeds config state entry write held name value ↔ (StoppedAt value ∨ PassedOver value) ∧
      (¬write.Applies config state.passwords name ∨ Improper held value) := by
  have heeded : ∀ {next : State σ D K threads} {response : Response},
      Refused state next response →
      runPwd config state entry = some (next, response) →
      (Heeds config state entry write held name value ↔
        ¬write.Applies config state.passwords name ∨ Improper held value) := by
    intro next response refused result
    constructor
    · rintro ⟨_, _, same, should, _⟩
      cases result.symm.trans same
      exact should.mp refused
    · intro should
      exact ⟨next, response, result, iff_of_true refused should,
        fun accepted => absurd refused accepted⟩
  rcases readPermissionsValue_cases value with passed | stopped | outside
  · have refused : Refused state state (Response.literal (respErrorMessage message)) := ⟨rfl, rfl⟩
    rw [heeded refused (ran.trans (requestedPermissions_of_passedOver holds other passed)),
      and_iff_right (.inr passed)]
  · obtain ⟨next, response, result, refused⟩ := requestedPermissions_of_stoppedAt
      (fun _ => literalReply state (respErrorMessage message)) own other stopped
    rw [heeded refused (ran.trans result), and_iff_right (.inl stopped)]
  · have crashes := ran.trans (requestedPermissions_of_outside other outside)
    constructor
    · rintro ⟨_, _, result, _⟩
      cases crashes.symm.trans result
    · rintro ⟨stopped | passed, _⟩
      · obtain ⟨letter, read⟩ := readPermissionsValue_of_stoppedAt stopped
        rw [read] at outside
        cases outside
      · rw [readPermissionsValue_of_passedOver passed] at outside
        cases outside

/-- EDIT of a password that does not exist is refused without a look at the argument. -/
theorem heeds_edit_absent (own : entry.client = some slot)
    (args : entry.args = [argument, name, value])
    (named : toUppercase argument = text PwdWrite.edit.subcommand)
    (absent : ¬PwdWrite.edit.Applies config state.passwords name) :
    Heeds config state entry .edit held name value := by
  have refused : Refused state state
      (Response.literal (respErrorMessage "This password does not exist")) := ⟨rfl, rfl⟩
  refine ⟨_, _, runPwd_edit_absent own args named (not_not.mp absent), ?_, ?_⟩
  · exact iff_of_true refused (.inl absent)
  · exact fun accepted => absurd refused accepted

/-- ADD and EDIT do what their permissions argument says exactly when it is empty, or has a letter
behind its first byte and should be refused; without memory, when it should be refused. -/
theorem heeds_iff {write : PwdWrite} (sound : state.passwords.Sound)
    (own : entry.client = some slot)
    (holds : state.passwords.permissions entry.password = some held)
    (args : entry.args = [argument, name, value])
    (named : toUppercase argument = text write.subcommand) (other : value ≠ text "all") :
    Heeds config state entry write held name value ↔
      Heedable config state.passwords entry write held name value := by
  by_cases applies : write.Applies config state.passwords name
  · by_cases allocated : write.Allocated config entry
    · rw [heeds_iff_of_applies sound own holds args named other applies allocated]
      simp [Heedable, applies, allocated]
    · cases write with
      | add =>
          rw [heeds_iff_of_failing own holds other
            (runPwd_add_unallocated own args named applies (Bool.eq_false_of_not_eq_true allocated))]
          simp [Heedable, applies, allocated]
      | edit => exact absurd trivial allocated
  · cases write with
    | add =>
        rw [heeds_iff_of_failing own holds other (runPwd_add_existing own args named applies)]
        simp [Heedable, applies]
    | edit =>
        exact iff_of_true (heeds_edit_absent own args named applies)
          ⟨fun same => absurd same applies, fun same => absurd same applies, PwdWrite.noConfusion⟩

end Writing

/-! ## A letter that is not looked at -/

/-- A server that has loaded the password p, which grants everything. -/
def protectedByP : State Unit Unit Bytes 2 :=
  start sampleConfig () [⟨some (text "p"), Permission.all⟩]

/-- `PWD EDIT p` with a permissions argument, from a client that has authenticated with p. -/
def editing (permissions : String) : Entry Unit where
  client := some 1
  args := [text "edit", text "p", text permissions]
  database := ()
  password := 3
  tag := ⟨1, 0⟩

theorem protectedByP_sound : protectedByP.passwords.Sound :=
  initialPasswords_sound
    (List.forall_mem_singleton.mpr rfl) (List.nodup_singleton _)

theorem heeds_iff_of_protected :
    Heeds sampleConfig protectedByP (editing "xr") .edit Permission.all (text "p") (text "xr") ↔
      Heedable sampleConfig protectedByP.passwords (editing "xr") .edit Permission.all (text "p")
        (text "xr") :=
  heeds_iff protectedByP_sound rfl rfl rfl (by decide) (by decide)

/-- A password that is edited to grant reading grants nothing. -/
theorem not_heeds_single_letter :
    ¬Heeds sampleConfig protectedByP (editing "r") .edit Permission.all (text "p") (text "r") := by
  rintro ⟨next, response, ran, _, granted⟩
  have done : (runPwd sampleConfig protectedByP (editing "r")).any (fun result =>
      result.2 = Response.literal respOk ∧
        result.1.passwords.granted sampleConfig (text "p") = some Permission.none) := by
    decide +kernel
  rw [ran] at done
  obtain ⟨accepted, nothing⟩ := of_decide_eq_true done
  have same : response = Response.literal respOk := accepted
  have reads := granted (same ▸ not_refused_respOk)
  rw [nothing] at reads
  exact absurd reads (by decide)

end TellyDB.Server
