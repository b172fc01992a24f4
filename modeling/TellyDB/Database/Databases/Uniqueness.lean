import TellyDB.Database.Databases
import TellyDB.Utils.Strings

/-!
Owns the uniqueness of databases by name. The search for a name starts at the end of the list
and follows `next`, so it looks at the last database only, and names stay unique exactly as long
as there is one database.
-/

namespace TellyDB.Databases

open Lib.LinkedSegment Lib.Transition Resp Utils Utils.LinkedList

variable {hash : Bytes → Nat} {state : State} {list : LinkedList}
  {nodes : List (Nat × Database)} {last : Nat × Database}

/-! ## The search -/

theorem Linked.end_cell {memory : Memory Database}
    (linked : Linked memory list (nodes ++ [last])) :
    ∃ prev, memory last.1 = some ⟨last.2, prev, none⟩ := by
  rcases segment_append.mp linked.segment with ⟨-, held, -⟩
  exact ⟨_, held⟩

theorem Linked.end_node {memory : Memory Database}
    (linked : Linked memory list (nodes ++ [last])) : list.endNode = some last.1 := by
  rw [linked.end_eq, last_append_singleton]

/-- A search from the back compares the last node only. -/
theorem llSearchNode_back {memory : Memory Database} (linked : Linked memory list (nodes ++ [last]))
    (cmp : Database → Bool) :
    llSearchNode memory list cmp .back = some (if cmp last.2 then some last.1 else none) := by
  rcases Linked.end_cell linked with ⟨prev, held⟩
  have size_eq : list.size = nodes.length + 1 := by
    rw [linked.size_eq, List.length_append]
    rfl
  rw [llSearchNode, Linked.end_node linked, size_eq, llSearchFrom, held]
  by_cases matching : cmp last.2 = true
  · simp [matching]
  · simp [matching, llSearchFrom]

/-- The databases, in the order of their list. -/
structure Listed (hash : Bytes → Nat) (state : State) (nodes : List (Nat × Database)) : Prop where
  linked : ∃ list, state.databases = some list ∧ Linked state.memory list nodes
  hashed : ∀ node ∈ nodes, node.2.id = hash node.2.name

/-- What clients selected is not part of the list. -/
theorem Listed.select (listed : Listed hash state nodes) (selected : Nat → Option Nat)
    (selections : List (Bytes × Nat)) :
    Listed hash { state with selected, selections } nodes :=
  ⟨listed.linked, listed.hashed⟩

theorem Listed.holds_iff (listed : Listed hash state nodes) (name : Bytes) (address : Nat) :
    state.Holds name address ↔ ∃ node ∈ nodes, node.1 = address ∧ node.2.name = name := by
  rcases listed.linked with ⟨list, -, linked⟩
  constructor
  · rintro ⟨cell, held, named⟩
    have member : address ∈ nodes.map Prod.fst := by
      rw [← linked.live, held]
      rfl
    rcases List.mem_map.mp member with ⟨node, nodeMember, rfl⟩
    rcases linked.segment.live nodeMember with ⟨stored, storedHeld, data_eq⟩
    rw [held] at storedHeld
    cases storedHeld
    exact ⟨node, nodeMember, rfl, data_eq ▸ named⟩
  · rintro ⟨node, member, rfl, named⟩
    rcases linked.segment.live member with ⟨cell, held, data_eq⟩
    exact ⟨cell, held, data_eq ▸ named⟩

/-- `get_database` compares the name with that of the last database only. -/
theorem Listed.getDatabase (listed : Listed hash state (nodes ++ [last])) (name : Bytes) :
    getDatabase hash state name = some (if last.2.name = name then some last.1 else none) := by
  rcases listed.linked with ⟨list, databases, linked⟩
  have hashed := listed.hashed last (List.mem_append_right _ List.mem_cons_self)
  rw [Databases.getDatabase, databases]
  refine (llSearchNode_back linked _).trans ?_
  by_cases named : last.2.name = name
  · simp [sameDatabase, named, hashed]
  · simp [sameDatabase, named]

theorem Listed.endsWith (listed : Listed hash state (nodes ++ [last])) (name : Bytes) :
    state.endsWith name = true ↔ last.2.name = name := by
  rcases listed.linked with ⟨list, databases, linked⟩
  rcases Linked.end_cell linked with ⟨prev, held⟩
  simp [State.endsWith, databases, Linked.end_node linked, readNode, held]

/-! ## Creation -/

/-- Where the allocation succeeds the new database is the last of the list. -/
theorem createDatabase_listed (listed : state.databases = none ∧ state.memory = (fun _ => none) ∧
      nodes = [] ∨ Listed hash state nodes)
    (name : Bytes) {address : Nat} (dead : state.memory address = none) :
    ∃ memory databases, createDatabase hash state name address =
        some ({ state with memory, databases := some databases }, some address) ∧
      Listed hash { state with memory, databases := some databases }
        (nodes ++ [(address, ⟨name, hash name⟩)]) := by
  have linkedHashed : Linked state.memory (state.databases.getD llCreate) nodes ∧
      ∀ node ∈ nodes, node.2.id = hash node.2.name := by
    rcases listed with ⟨databases, memory, rfl⟩ | listed
    · rw [databases, memory]
      exact ⟨linked_create, fun _ member => absurd member List.not_mem_nil⟩
    · rcases listed.linked with ⟨list, databases, linked⟩
      rw [databases]
      exact ⟨linked, listed.hashed⟩
  rcases linkedHashed with ⟨linked, hashed⟩
  rcases linked.llInsertBack dead ⟨name, hash name⟩ with ⟨memory, databases, inserted, kept⟩
  refine ⟨memory, databases, ?_, ⟨databases, rfl, kept⟩, ?_⟩
  · simp [createDatabase, inserted]
  · intro node member
    rcases List.mem_append.mp member with old | new
    · exact hashed node old
    · rw [List.mem_singleton.mp new]

/-- Where the allocation fails nothing changes. -/
theorem createDatabase_failed (listed : Listed hash state nodes) (name : Bytes) {address : Nat}
    (inUse : (state.memory address).isSome = true) :
    createDatabase hash state name address = some (state, none) := by
  rcases listed.linked with ⟨list, databases, -⟩
  rcases Option.isSome_iff_exists.mp inUse with ⟨cell, held⟩
  simp [createDatabase, llInsertBack, llCreateNode, held, databases]
  rw [← databases]

/-! ## Loading -/

theorem loadFrom_listed {databases : List (Bytes × Nat)} {loaded : State}
    (listed : Listed hash state nodes) (ran : loadFrom hash state databases = some loaded) :
    Listed hash loaded
        (nodes ++ databases.map fun entry => (entry.2, ⟨entry.1, hash entry.1⟩)) ∧
      loaded.selections = state.selections := by
  induction databases generalizing state nodes with
  | nil =>
      cases ran
      rw [List.map_nil, List.append_nil]
      exact ⟨listed, rfl⟩
  | cons entry rest inductionHypothesis =>
      rcases entry with ⟨name, address⟩
      cases held : state.memory address with
      | some cell =>
          have failed := createDatabase_failed listed name (by rw [held]; rfl)
          simp [loadFrom, failed] at ran
      | none =>
          rcases createDatabase_listed (Or.inr listed) name held with
            ⟨memory, databases, created, kept⟩
          simp only [loadFrom, created, Option.bind_eq_bind, Option.bind_some] at ran
          have loaded := inductionHypothesis kept ran
          rw [List.append_assoc] at loaded
          exact loaded

theorem load_listed {first : Bytes × Nat} {others : List (Bytes × Nat)} {loaded : State}
    (ran : load hash (first :: others) = some loaded) :
    Listed hash loaded
        ((first :: others).map fun entry => (entry.2, ⟨entry.1, hash entry.1⟩)) ∧
      loaded.selections = [] := by
  rcases first with ⟨name, address⟩
  have fresh : unloaded.databases = none ∧ unloaded.memory = (fun _ => none) ∧
      ([] : List (Nat × Database)) = [] := ⟨rfl, rfl, rfl⟩
  have free : unloaded.memory address = none := rfl
  rcases @createDatabase_listed hash _ _ (Or.inl fresh) name _ free with
    ⟨memory, databases, created, kept⟩
  simp only [load, loadFrom, created, Option.bind_eq_bind, Option.bind_some] at ran
  exact loadFrom_listed kept ran

/-! ## One database, and more than one -/

/-- With a second database there is a name that does not lead to its database. -/
theorem Listed.not_unique (listed : Listed hash state (nodes ++ [last])) (nonempty : nodes ≠ []) :
    ¬Unique hash state := by
  intro unique
  rcases List.exists_mem_of_ne_nil nodes nonempty with ⟨node, member⟩
  have holdsNode : state.Holds node.2.name node.1 :=
    (listed.holds_iff _ _).mpr ⟨node, List.mem_append_left _ member, rfl, rfl⟩
  by_cases named : last.2.name = node.2.name
  · have holdsLast : state.Holds node.2.name last.1 :=
      (listed.holds_iff _ _).mpr
        ⟨last, List.mem_append_right _ List.mem_cons_self, rfl, named⟩
    have same := unique.single _ _ _ holdsNode holdsLast
    rcases listed.linked with ⟨list, -, linked⟩
    have distinct := linked.distinct
    rw [List.map_append, List.nodup_append] at distinct
    exact distinct.2.2 node.1 (List.mem_map_of_mem member) last.1 List.mem_cons_self same
  · have found := (unique.found _ _).mpr holdsNode
    rw [listed.getDatabase, if_neg named] at found
    cases found

/-- There is one database, and every SELECT that succeeded gave it. -/
structure Sole (hash : Bytes → Nat) (name : Bytes) (address : Nat) (state : State) : Prop where
  listed : Listed hash state ([] ++ [(address, ⟨name, hash name⟩)])
  selections : ∀ entry ∈ state.selections, entry = (name, address)

variable {name : Bytes} {address : Nat}

theorem Sole.unique (sole : Sole hash name address state) : Unique hash state where
  found := by
    intro asked target
    rw [sole.listed.getDatabase, sole.listed.holds_iff]
    by_cases same : name = asked
    · simp [same]
    · simp [same]
  single := by
    intro asked left right holdsLeft holdsRight
    rw [sole.listed.holds_iff] at holdsLeft holdsRight
    rcases holdsLeft with ⟨node, member, rfl, -⟩
    rcases holdsRight with ⟨other, otherMember, rfl, -⟩
    rw [List.mem_singleton.mp member, List.mem_singleton.mp otherMember]
  agree := by
    intro asked left right leftMember rightMember
    have leftEq := sole.selections _ leftMember
    have rightEq := sole.selections _ rightMember
    exact (Prod.mk.inj leftEq).2.trans (Prod.mk.inj rightEq).2.symm

/-- What SELECT does while there is one database. -/
theorem Sole.step_cases (sole : Sole hash name address state) (command : Select) :
    (CreatesNone state command ∧ step hash state command = some state) ∨
      (CreatesNone state command ∧ ∃ client, step hash state command = some { state with
        selected := Function.update state.selected client (some address)
        selections := (name, address) :: state.selections }) ∨
      (∃ client asked, command = ⟨some client, [asked], command.address⟩ ∧ asked ≠ name ∧
        getDatabase hash state asked = some none) := by
  rcases command with ⟨client, args, fresh⟩
  cases client with
  | none => exact Or.inl ⟨trivial, rfl⟩
  | some client =>
      match args with
      | [] => exact Or.inl ⟨trivial, rfl⟩
      | _ :: _ :: _ => exact Or.inl ⟨trivial, rfl⟩
      | [asked] =>
          by_cases same : name = asked
          · subst same
            refine Or.inr (Or.inl ⟨Or.inl ((sole.listed.endsWith name).mpr rfl), client, ?_⟩)
            simp [step, runSelect, sole.listed.getDatabase]
          · refine Or.inr (Or.inr ⟨client, asked, rfl, Ne.symm same, ?_⟩)
            rw [sole.listed.getDatabase]
            simp [same]

/-- A SELECT that creates no database leaves the one there is. -/
theorem Sole.step_createsNone (sole : Sole hash name address state) {command : Select}
    (createsNone : CreatesNone state command) :
    ∃ next, step hash state command = some next ∧ Sole hash name address next := by
  rcases sole.step_cases command with
    ⟨-, stepped⟩ | ⟨-, client, stepped⟩ | ⟨client, asked, command_eq, different, missing⟩
  · exact ⟨state, stepped, sole⟩
  · refine ⟨_, stepped, sole.listed.select _ _, ?_⟩
    intro entry member
    rcases List.mem_cons.mp member with rfl | old
    · rfl
    · exact sole.selections entry old
  · rw [command_eq] at createsNone ⊢
    rcases createsNone with ends | inUse
    · exact absurd ((sole.listed.endsWith asked).mp ends).symm different
    · refine ⟨state, ?_, sole⟩
      simp [step, runSelect, missing, createDatabase_failed sole.listed asked inUse]

/-- Any other SELECT creates a second one. -/
theorem Sole.step_creates (sole : Sole hash name address state) {command : Select}
    (creates : ¬CreatesNone state command) {next : State}
    (stepped : step hash state command = some next) : ¬Unique hash next := by
  rcases sole.step_cases command with
    ⟨createsNone, -⟩ | ⟨createsNone, -⟩ | ⟨client, asked, command_eq, -, missing⟩
  · exact absurd createsNone creates
  · exact absurd createsNone creates
  · rw [command_eq] at creates stepped
    have dead : state.memory command.address = none :=
      Option.not_isSome_iff_eq_none.mp fun inUse => creates (Or.inr inUse)
    rcases createDatabase_listed (Or.inr sole.listed) asked dead with
      ⟨memory, databases, created, kept⟩
    simp only [step, runSelect, missing, created, Option.bind_eq_bind, Option.bind_some,
      Option.map_some, Option.some.injEq] at stepped
    subst stepped
    exact (kept.select _ _).not_unique (by simp)

/-- Databases stay unique by name along a run of SELECTs exactly when one database was loaded and
no SELECT creates another. -/
theorem databases_unique (hash : Bytes → Nat) {first : Bytes × Nat} {others : List (Bytes × Nat)}
    {loaded : State} (ran : load hash (first :: others) = some loaded) (commands : List Select) :
    (∀ early, early <+: commands → ∃ reached, run (step hash) loaded early = some reached ∧
        Unique hash reached) ↔
      others = [] ∧ Guarded (step hash) CreatesNone loaded commands := by
  rcases load_listed ran with ⟨listed, selections⟩
  cases others with
  | nil =>
      have sole : Sole hash first.1 first.2 loaded := by
        refine ⟨listed, fun entry member => ?_⟩
        rw [selections] at member
        exact absurd member List.not_mem_nil
      rw [eq_self, true_and]
      exact always_iff_guarded (fun _ _ held createsNone => held.step_createsNone createsNone)
        (fun _ held => held.unique)
        (fun _ _ _ held creates stepped => held.step_creates creates stepped) sole
  | cons second rest =>
      refine ⟨fun always => ?_, fun guarded => absurd guarded.1 (List.cons_ne_nil _ _)⟩
      rcases always [] List.nil_prefix with ⟨reached, same, unique⟩
      cases same
      rw [List.map_cons, ← List.dropLast_append_getLast (l := List.map _ (second :: rest))
        (by simp), ← List.cons_append] at listed
      exact absurd unique (listed.not_unique (List.cons_ne_nil _ _))

/-! ## A second database -/

/-- One database, `main`, is loaded. -/
def sampleLoaded : State := (load stringHash [(text "main", 0)]).getD unloaded

theorem load_sample : load stringHash [(text "main", 0)] = some sampleLoaded := rfl

/-- Two clients select the database that is there, one asks for none. -/
def sampleSelects : List Select :=
  [⟨some 0, [text "main"], 1⟩, ⟨some 1, [], 1⟩, ⟨some 1, [text "main"], 2⟩]

theorem databases_unique_sample :
    ∃ reached, run (step stringHash) sampleLoaded sampleSelects = some reached ∧
      Unique stringHash reached :=
  (databases_unique stringHash load_sample sampleSelects).mpr ⟨rfl, by decide +kernel⟩
    sampleSelects (List.prefix_refl _)

/-- Once another database was selected, SELECT of the loaded one makes a second of its name. -/
theorem databases_duplicated : ∃ reached,
    run (step stringHash) sampleLoaded
        [⟨some 0, [text "main"], 1⟩, ⟨some 0, [text "other"], 1⟩, ⟨some 0, [text "main"], 2⟩] =
      some reached ∧ ¬Unique stringHash reached := by
  refine ⟨_, rfl, fun unique => ?_⟩
  have twice := unique.agree (text "main") 2 0 (by decide +kernel) (by decide +kernel)
  cases twice

end TellyDB.Databases
