import TellyDB.Database.Read.File

/-!
Owns `server->initial_database` of `read_file`: the loop takes every database whose id
is the hash of the configured name, one after the other, and does not look at its name.
-/

namespace TellyDB.Database.Read

open Resp Utils Lib.ByteSource
open File (magic)

variable {σ : Type}

/-! ## The loop -/

/-- The loop of `read_file`, with `server->initial_database` as the place of the database in the
list. The next database comes to `place`. -/
def readDatabases (source : Source σ UInt8) (fuel fileSize hashed : Nat) :
    Nat → Nat → Nat → Option Nat → Collecting σ (List LoadedDatabase × Option Nat)
  | 0, _, _, _ => fun _ => none
  | turns + 1, collected, place, initial => do
      let (database, _, length) ← collectDatabase source fuel
      let initial := if stringHash database.name = hashed then some place else initial
      if collected + length = fileSize then pure ([database], initial)
      else do
        let (databases, initial) ←
          readDatabases source fuel fileSize hashed turns (collected + length) (place + 1) initial
        pure (database :: databases, initial)

/-- `read_file`, with the place of `server->initial_database`, which is NULL before it. -/
def readFileInitial (fuel fileSize : Nat) (databaseName : Bytes) (arguments : GenericArguments) :
    Option (List LoadedDatabase × Nat) :=
  if arguments.position = fileSize then some ([createInitialDatabase databaseName], 0)
  else if standing : Standing arguments then do
    let ((databases, initial), _) ← readDatabases blockSource fuel fileSize
      (stringHash databaseName) fuel arguments.position 0 none ⟨arguments, standing⟩
    match initial with
    | some place => some (databases, place)
    | none => some (databases ++ [createInitialDatabase databaseName], databases.length)
  else none

/-- The database that the loop has taken behind these ones. -/
def initialFrom (hashed place : Nat) (initial : Option Nat) : List LoadedDatabase → Option Nat
  | [] => initial
  | database :: rest =>
      initialFrom hashed (place + 1)
        (if stringHash database.name = hashed then some place else initial) rest

/-- The loop collects the databases, whatever it takes for the initial one. -/
theorem readDatabases_eq (source : Source σ UInt8) (fuel fileSize hashed turns : Nat)
    (collected place : Nat) (initial : Option Nat) (state : σ) :
    readDatabases source fuel fileSize hashed turns collected place initial state =
      (collectDatabases source fuel fileSize turns collected state).map fun read =>
        ((read.1, initialFrom hashed place initial read.1), read.2) := by
  induction turns generalizing collected place initial state with
  | zero => rfl
  | succ turns inductionHypothesis =>
      rw [readDatabases, collectDatabases]
      simp only [bind, StateT.bind]
      cases collectDatabase source fuel state with
      | none => rfl
      | some read =>
          dsimp only [Option.bind]
          split
          · rfl
          · simp only [StateT.bind, inductionHypothesis]
            cases collectDatabases source fuel fileSize turns (collected + read.1.2.2) read.2 with
            | none => rfl
            | some later => rfl

/-! ## The databases of a file -/

/-- The databases that a file holds behind the place of the arguments. -/
def Holds (fuel fileSize : Nat) (arguments : GenericArguments) (found : List LoadedDatabase) :
    Prop :=
  if arguments.position = fileSize then found = []
  else ∃ (standing : Standing arguments)
      (next : { arguments : GenericArguments // Standing arguments }),
    collectDatabases blockSource fuel fileSize fuel arguments.position ⟨arguments, standing⟩ =
      some (found, next)

/-- What `read_file` makes of the databases of its file. -/
def initialized (databaseName : Bytes) (found : List LoadedDatabase) : List LoadedDatabase × Nat :=
  match initialFrom (stringHash databaseName) 0 none found with
  | some place => (found, place)
  | none => (found ++ [createInitialDatabase databaseName], found.length)

theorem readFileInitial_eq {fuel fileSize : Nat} {databaseName : Bytes}
    {arguments : GenericArguments} {found : List LoadedDatabase}
    (holds : Holds fuel fileSize arguments found) :
    readFileInitial fuel fileSize databaseName arguments =
      some (initialized databaseName found) := by
  rw [Holds] at holds
  rw [readFileInitial]
  split at holds
  · next finished =>
      rw [if_pos finished, holds]
      rfl
  · next unfinished =>
      obtain ⟨standing, next, collected⟩ := holds
      rw [if_neg unfinished, dif_pos standing, readDatabases_eq, collected, initialized]
      simp only [Option.map_some, Option.bind_eq_bind, Option.bind_some]
      cases initialFrom (stringHash databaseName) 0 none found with
      | none => rfl
      | some place => rfl

/-! ## The last database of the hash -/

theorem initialFrom_absent {hashed place : Nat} {initial : Option Nat}
    {found : List LoadedDatabase}
    (absent : ∀ database ∈ found, stringHash database.name ≠ hashed) :
    initialFrom hashed place initial found = initial := by
  induction found generalizing place with
  | nil => rfl
  | cons database rest inductionHypothesis =>
      rw [List.forall_mem_cons] at absent
      rw [initialFrom, if_neg absent.1]
      exact inductionHypothesis absent.2

theorem initialFrom_last {hashed place last : Nat} {initial : Option Nat}
    {found : List LoadedDatabase} {database : LoadedDatabase}
    (stands : found[last]? = some database) (same : stringHash database.name = hashed)
    (later : ∀ index other, last < index → found[index]? = some other →
      stringHash other.name ≠ hashed) :
    initialFrom hashed place initial found = some (place + last) := by
  induction found generalizing place initial last with
  | nil => cases stands
  | cons first rest inductionHypothesis =>
      rw [initialFrom]
      cases last with
      | zero =>
          rw [List.getElem?_cons_zero, Option.some.injEq] at stands
          rw [stands, if_pos same, initialFrom_absent, Nat.add_zero]
          intro other member
          obtain ⟨index, found⟩ := List.mem_iff_getElem?.mp member
          exact later (index + 1) other (Nat.succ_pos index) found
      | succ last =>
          rw [List.getElem?_cons_succ] at stands
          rw [inductionHypothesis stands, Nat.add_right_comm, Nat.add_assoc]
          intro index other beyond found
          exact later (index + 1) other (Nat.succ_lt_succ beyond) found

/-- Some database of the hash is the last one, unless none has it. -/
theorem exists_last {hashed : Nat} (found : List LoadedDatabase) :
    (∀ database ∈ found, stringHash database.name ≠ hashed) ∨
      ∃ (last : Nat) (database : LoadedDatabase), found[last]? = some database ∧
        stringHash database.name = hashed ∧
        ∀ (index : Nat) (other : LoadedDatabase), last < index → found[index]? = some other →
          stringHash other.name ≠ hashed := by
  induction found with
  | nil => exact Or.inl fun database member => absurd member List.not_mem_nil
  | cons first rest inductionHypothesis =>
      rcases inductionHypothesis with absent | ⟨last, database, stands, same, later⟩
      · by_cases same : stringHash first.name = hashed
        · refine Or.inr ⟨0, first, rfl, same, ?_⟩
          intro index other beyond found
          cases index with
          | zero => exact absurd beyond (Nat.lt_irrefl 0)
          | succ index => exact absent other (List.mem_of_getElem? found)
        · exact Or.inl (List.forall_mem_cons.mpr ⟨same, absent⟩)
      · refine Or.inr ⟨last + 1, database, stands, same, ?_⟩
        intro index other beyond found
        cases index with
        | zero => exact absurd beyond (Nat.not_lt_zero _)
        | succ index => exact later index other (Nat.lt_of_succ_lt_succ beyond) found

/-- The databases are those of `readFile`. -/
theorem readFileInitial_databases (fuel fileSize : Nat) (databaseName : Bytes)
    (arguments : GenericArguments) :
    (readFileInitial fuel fileSize databaseName arguments).map Prod.fst =
      (readFile fuel fileSize databaseName arguments).map fun databases =>
        databases.found ++ databases.created.toList := by
  rw [readFileInitial, readFile]
  split
  · rfl
  split
  · next standing =>
      rw [readDatabases_eq]
      cases collectDatabases blockSource fuel fileSize fuel arguments.position
          ⟨arguments, standing⟩ with
      | none => rfl
      | some read =>
          obtain ⟨found, next⟩ := read
          simp only [Option.map_some, Option.bind_eq_bind, Option.bind_some]
          rcases @exists_last (stringHash databaseName) found with
            absent | ⟨last, database, stands, same, later⟩
          · have missed : ¬(found.any fun database =>
                stringHash database.name = stringHash databaseName) = true := by
              simpa using absent
            rw [initialFrom_absent absent, if_neg missed]
            rfl
          · have met : (found.any fun database =>
                stringHash database.name = stringHash databaseName) = true := by
              rw [List.any_eq_true]
              exact ⟨database, List.mem_of_getElem? stands, decide_eq_true same⟩
            rw [initialFrom_last stands same later, if_pos met]
            exact congrArg some (List.append_nil found).symm
  · rfl

/-! ## The configured name -/

/-- The initial database is the one of the configured name, which is new and behind the others
where none of them has the name. -/
structure InitialByName (databaseName : Bytes) (found : List LoadedDatabase)
    (loaded : List LoadedDatabase × Nat) : Prop where
  present : (∃ database ∈ found, database.name = databaseName) →
    loaded.1 = found ∧
      ∃ database, found[loaded.2]? = some database ∧ database.name = databaseName
  absent : (∀ database ∈ found, database.name ≠ databaseName) →
    loaded = (found ++ [createInitialDatabase databaseName], found.length)

/-- Behind every database of another name with the hash of the configured one stands the database
of the configured name. -/
def Outlived (databaseName : Bytes) (found : List LoadedDatabase) : Prop :=
  ∀ (index : Nat) (database : LoadedDatabase), found[index]? = some database →
    stringHash database.name = stringHash databaseName → database.name ≠ databaseName →
      ∃ (later : Nat) (named : LoadedDatabase), index < later ∧ found[later]? = some named ∧
        named.name = databaseName

theorem initialized_named_iff (databaseName : Bytes) (found : List LoadedDatabase) :
    InitialByName databaseName found (initialized databaseName found) ↔
      Outlived databaseName found := by
  rcases @exists_last (stringHash databaseName) found with
    absent | ⟨last, database, stands, same, later⟩
  · have taken : initialized databaseName found =
        (found ++ [createInitialDatabase databaseName], found.length) := by
      rw [initialized, initialFrom_absent absent]
    rw [taken]
    constructor
    · intro _ index database found same
      exact absurd same (absent database (List.mem_of_getElem? found))
    · intro _
      refine ⟨?_, fun _ => rfl⟩
      rintro ⟨database, member, named⟩
      exact absurd (congrArg stringHash named) (absent database member)
  · have taken : initialized databaseName found = (found, last) := by
      rw [initialized, initialFrom_last stands same later, Nat.zero_add]
    have member := List.mem_of_getElem? stands
    rw [taken]
    constructor
    · intro initial index collided found' collides differs
      have named : database.name = databaseName := by
        by_contra other
        by_cases present : ∃ database ∈ found, database.name = databaseName
        · obtain ⟨-, chosen, stands', named⟩ := initial.present present
          rw [stands, Option.some.injEq] at stands'
          exact other (stands' ▸ named)
        · have created := initial.absent fun database member named =>
            present ⟨database, member, named⟩
          have longer := congrArg (fun loaded => loaded.1.length) created
          rw [List.length_append] at longer
          exact absurd longer (Nat.ne_of_lt (Nat.lt_succ_self _))
      refine ⟨last, database, ?_, stands, named⟩
      rcases Nat.lt_trichotomy index last with before | at_last | beyond
      · exact before
      · rw [at_last, stands, Option.some.injEq] at found'
        exact absurd (found' ▸ named) differs
      · exact absurd collides (later index collided beyond found')
    · intro outlived
      have named : database.name = databaseName := by
        by_contra other
        obtain ⟨index, named, beyond, found', isNamed⟩ := outlived last database stands same other
        exact later index named beyond found' (congrArg stringHash isNamed)
      exact ⟨fun _ => ⟨rfl, database, stands, named⟩,
        fun absent => absurd named (absent database member)⟩

/-- The bytes of a database without keys, whose name has less than 64 of them. -/
def emptyDatabaseBytes (name : Bytes) : Bytes :=
  List.replicate 8 0 ++ UInt8.ofNat name.length :: name

/-- A file without passwords, whose databases have these names. -/
def sampleFile (names : List Bytes) : Bytes :=
  magic ++ [5, 0, 0, 0, 0] ++ (names.map emptyDatabaseBytes).flatten

/-- The block of a sample file, behind its passwords. -/
def sampleArguments (names : List Bytes) : GenericArguments :=
  loaded (sampleFile names) (List.replicate (64 - (sampleFile names).length) 0) 64 7

/-- The databases of a sample file have the names that are written to it. -/
theorem sample_holds (names : List Bytes) (standing : Standing (sampleArguments names))
    (begun : (sampleArguments names).position ≠ (sampleFile names).length)
    (read : ((collectDatabases blockSource 3 (sampleFile names).length 3
      (sampleArguments names).position ⟨sampleArguments names, standing⟩).map
        fun read => read.1.map LoadedDatabase.name) = some names) :
    ∃ found, Holds 3 (sampleFile names).length (sampleArguments names) found ∧
      found.map LoadedDatabase.name = names := by
  obtain ⟨⟨found, next⟩, collected, named⟩ := Option.map_eq_some_iff.mp read
  refine ⟨found, ?_, named⟩
  rw [Holds, if_neg begun]
  exact ⟨standing, next, collected⟩

/-- The database whose name only shares the hash stands before the one of the name. -/
theorem outlived_two {found : List LoadedDatabase}
    (names : found.map LoadedDatabase.name = [text "j8402r", text "telly"]) :
    Outlived (text "telly") found := by
  obtain ⟨first, rest, rfl, -, names⟩ := List.map_eq_cons_iff.mp names
  obtain ⟨second, rest, rfl, named, names⟩ := List.map_eq_cons_iff.mp names
  rw [List.map_eq_nil_iff.mp names]
  intro index database stands _ differs
  match index with
  | 0 => exact ⟨1, second, Nat.zero_lt_one, rfl, named⟩
  | 1 =>
      cases stands
      exact absurd named differs
  | _ + 2 => cases stands

/-- A file is read with the database of the configured name as the initial one, exactly if every
database of another name and the same hash has it behind itself. -/
theorem readFile_initial_iff {fuel fileSize : Nat} {arguments : GenericArguments}
    {found : List LoadedDatabase} (databaseName : Bytes)
    (holds : Holds fuel fileSize arguments found) :
    ∃ loaded, readFileInitial fuel fileSize databaseName arguments = some loaded ∧
      (InitialByName databaseName found loaded ↔ Outlived databaseName found) :=
  ⟨_, readFileInitial_eq holds, initialized_named_iff databaseName found⟩

theorem readFile_initial_iff_two : ∃ found loaded,
    found.map LoadedDatabase.name = [text "j8402r", text "telly"] ∧
      readFileInitial 3 (sampleFile [text "j8402r", text "telly"]).length (text "telly")
        (sampleArguments [text "j8402r", text "telly"]) = some loaded ∧
          InitialByName (text "telly") found loaded := by
  obtain ⟨found, holds, names⟩ := sample_holds [text "j8402r", text "telly"]
    (by decide +kernel) (by decide +kernel) (by decide +kernel)
  obtain ⟨loaded, read, exact_⟩ := readFile_initial_iff (text "telly") holds
  exact ⟨found, loaded, names, read, exact_.mpr (outlived_two names)⟩

/-- The only database of a file is taken for the configured one, whose hash its name has. -/
theorem readFile_initial_wrong : ∃ database loaded,
    database.name = text "j8402r" ∧
      Holds 3 (sampleFile [text "j8402r"]).length (sampleArguments [text "j8402r"]) [database] ∧
      readFileInitial 3 (sampleFile [text "j8402r"]).length (text "telly")
        (sampleArguments [text "j8402r"]) = some loaded ∧
      loaded = ([database], 0) ∧ ¬InitialByName (text "telly") [database] loaded := by
  obtain ⟨found, holds, names⟩ := sample_holds [text "j8402r"]
    (by decide +kernel) (by decide +kernel) (by decide +kernel)
  obtain ⟨database, rest, rfl, named, names⟩ := List.map_eq_cons_iff.mp names
  rw [List.map_eq_nil_iff.mp names] at holds
  have same : stringHash database.name = stringHash (text "telly") := by
    rw [named]
    decide +kernel
  have differs : database.name ≠ text "telly" := by
    rw [named]
    decide
  refine ⟨database, _, named, holds, readFileInitial_eq holds, ?_, ?_⟩
  · rw [initialized, initialFrom, if_pos same, initialFrom]
  · rw [initialized_named_iff]
    intro outlived
    obtain ⟨later, other, beyond, stands, -⟩ := outlived 0 database rfl same differs
    cases later with
    | zero => exact absurd beyond (Nat.lt_irrefl 0)
    | succ later => cases stands

end TellyDB.Database.Read
