import TellyDB.Server.ClientTable

/-!
Owns the lookup of clients: as long as no removal frees a slot on the way to
another client, every connected client is found under its id, and nothing else
is.
-/

namespace TellyDB.Server.ClientTable

open Lib Circular RingWalk LinearProbing SlotArray Transition

/-- The invariant of the table: the ids are apart, below the next one, and on the way from
the slot where their search starts. -/
structure Indexed (table : ClientTable) : Prop where
  positive : 0 < table.maxClients
  issued : ∀ slot < table.maxClients, table.clients slot ≠ -1 →
    0 ≤ table.clients slot ∧ table.clients slot < table.lastConnectionClientId.toNat
  distinct : ∀ first < table.maxClients, ∀ second < table.maxClients,
    table.clients first ≠ -1 → table.clients first = table.clients second → first = second
  probed : Probed table.maxClients (home table.maxClients) table.slots
  counted : table.clientCount = (entries table.slots table.maxClients).length

variable {table next : ClientTable}

theorem slots_of_taken {slot : Nat} (taken : table.clients slot ≠ -1) :
    table.slots slot = some (table.clients slot) :=
  if_neg taken

theorem slots_eq_none {slot : Nat} : table.slots slot = none ↔ table.clients slot = -1 := by
  rw [slots]
  split
  · rename_i free
    simp [free]
  · rename_i taken
    simp [taken]

theorem slots_eq_some {slot : Nat} {id : Int} :
    table.slots slot = some id ↔ table.clients slot = id ∧ id ≠ -1 := by
  rw [slots]
  split
  · rename_i free
    constructor
    · intro none
      cases none
    · rintro ⟨rfl, taken⟩
      exact absurd free taken
  · rename_i taken
    constructor
    · intro same
      cases same
      exact ⟨rfl, taken⟩
    · rintro ⟨rfl, _⟩
      rfl

/-! ## The search -/

/-- What the search returns, it has found. -/
theorem getClientFrom_found {id : Int} {start turns position slot : Nat}
    (bound : position < table.maxClients)
    (found : getClientFrom table id start turns position = some (some slot)) :
    slot < table.maxClients ∧ table.clients slot = id := by
  induction turns generalizing position with
  | zero => cases found
  | succ turns inductionHypothesis =>
      rw [getClientFrom] at found
      split at found
      · cases found
      · split at found
        · rename_i same
          cases found
          exact ⟨bound, same⟩
        · split at found
          · exact inductionHypothesis (by omega) found
          · split at found
            · cases found
            · exact inductionHypothesis (by omega) found

/-- The search reaches a slot when it passes only clients with other ids. -/
theorem getClientFrom_reaches {id : Int} {start steps : Nat} (startBound : start < table.maxClients)
    (bound : steps < table.maxClients)
    (there : table.clients (place table.maxClients start steps) = id) (taken : id ≠ -1)
    (passed : ∀ earlier < steps, table.clients (place table.maxClients start earlier) ≠ -1 ∧
      table.clients (place table.maxClients start earlier) ≠ id) :
    getClientFrom table id start table.maxClients start =
      some (some (place table.maxClients start steps)) := by
  have search : ∀ remaining turns, remaining ≤ steps → remaining < turns →
      getClientFrom table id start turns (place table.maxClients start (steps - remaining)) =
        some (some (place table.maxClients start steps)) := by
    intro remaining
    induction remaining with
    | zero =>
        intro turns _ enough
        obtain ⟨turns, rfl⟩ := Nat.exists_eq_add_of_lt enough
        rw [Nat.zero_add, Nat.sub_zero, getClientFrom, there, if_neg taken, if_pos rfl]
    | succ remaining inductionHypothesis =>
        intro turns within enough
        obtain ⟨turns, rfl⟩ : ∃ rest, turns = rest + 1 := ⟨turns - 1, by omega⟩
        obtain ⟨occupied, other⟩ := passed (steps - (remaining + 1)) (by omega)
        have further := inductionHypothesis turns (by omega) (by omega)
        have after : place table.maxClients start (steps - remaining) =
            (place table.maxClients start (steps - (remaining + 1)) + 1) % table.maxClients := by
          rw [← place_succ]
          congr 1
          omega
        have inside := place_lt (by omega : 0 < table.maxClients) start (steps - (remaining + 1))
        rw [getClientFrom, if_neg occupied, if_neg other]
        split
        · rename_i last
          rw [last, Nat.mod_self] at after
          rw [← after]
          exact further
        · rename_i inner
          rw [Nat.mod_eq_of_lt (by omega)] at after
          rw [if_neg, ← after]
          · exact further
          · intro around
            rw [around] at after
            have back := place_injective startBound (by omega : steps - remaining < _)
              (by omega : 0 < _) (after.trans (place_zero startBound).symm)
            omega
  have whole := search steps table.maxClients (Nat.le_refl _) bound
  rwa [Nat.sub_self, place_zero startBound] at whole

/-- The search for an id that was issued starts at its home. -/
theorem getClient_of_nonneg {id : Int} (nonneg : 0 ≤ id) :
    getClient table id = getClientFrom table id (home table.maxClients id) table.maxClients
      (home table.maxClients id) := by
  obtain ⟨value, rfl⟩ := Int.eq_ofNat_of_zero_le nonneg
  have start : (value : Int).tmod table.maxClients = ((value % table.maxClients : Nat) : Int) :=
    (Int.ofNat_tmod ..).symm
  rw [getClient, if_neg (by omega)]
  dsimp only
  rw [start, if_neg (by omega), Int.toNat_natCast]
  rfl

theorem Indexed.found (indexed : Indexed table) (id : Int) (slot : Nat) :
    getClient table id = some (some slot) ↔
      id ≠ -1 ∧ slot < table.maxClients ∧ table.clients slot = id := by
  constructor
  · intro found
    rw [getClient] at found
    split at found
    · cases found
    · rename_i taken
      dsimp only at found
      split at found
      · cases found
      · have positive := indexed.positive
        have below : (id.tmod table.maxClients).toNat < table.maxClients := by
          have := Int.tmod_lt_of_pos id (by omega : (0 : Int) < table.maxClients)
          omega
        exact ⟨taken, getClientFrom_found below found⟩
  · rintro ⟨taken, bound, rfl⟩
    have homeBound : home table.maxClients (table.clients slot) < table.maxClients :=
      Nat.mod_lt _ indexed.positive
    have reached := place_offset homeBound bound
    have path := indexed.probed slot bound _ (slots_of_taken taken)
    rw [getClient_of_nonneg (indexed.issued slot bound taken).1,
      getClientFrom_reaches homeBound (offset_lt indexed.positive _ slot) (by rw [reached]) taken,
      reached]
    intro earlier before
    have occupied := mt slots_eq_none.mpr (path earlier before)
    refine ⟨occupied, fun same => ?_⟩
    have back := indexed.distinct _ (place_lt indexed.positive _ earlier) slot bound occupied same
    have below := offset_lt indexed.positive (home table.maxClients (table.clients slot)) slot
    have equal := place_injective homeBound (before.trans below) below (back.trans reached.symm)
    omega

theorem Indexed.sound (indexed : Indexed table) : Sound table where
  found := indexed.found
  removed slot bound taken := by
    have found := (indexed.found (table.clients slot) slot).mpr ⟨taken, bound, rfl⟩
    refine ⟨freeSlot table slot, ?_⟩
    rw [removeClient, found]
    rfl
  counted := indexed.counted

/-! ## Steps -/

theorem initializeClients_indexed {maxClients : Nat} (positive : 0 < maxClients) :
    Indexed (initializeClients maxClients) where
  positive := positive
  issued _ _ taken := absurd rfl taken
  distinct _ _ _ _ taken := absurd rfl taken
  probed := probed_free maxClients _
  counted := by
    have free : (initializeClients maxClients).slots = fun _ => none := rfl
    rw [free, entries_free]
    rfl

/-- A slot that gets another id. -/
theorem slots_update {slot : Nat} {id : Int} (taken : id ≠ -1)
    (clients : next.clients = Function.update table.clients slot id) :
    next.slots = Function.update table.slots slot (some id) := by
  funext position
  by_cases same : position = slot
  · rw [same, Function.update_self, slots_eq_some, clients, Function.update_self]
    exact ⟨rfl, taken⟩
  · rw [slots, clients, Function.update_of_ne same, Function.update_of_ne same]
    rfl

theorem slots_freeSlot (table : ClientTable) (slot : Nat) :
    (freeSlot table slot).slots = Function.update table.slots slot none := by
  funext position
  by_cases same : position = slot
  · rw [same, Function.update_self, slots_eq_none]
    exact Function.update_self ..
  · have kept : (freeSlot table slot).clients position = table.clients position :=
      Function.update_of_ne same ..
    rw [Function.update_of_ne same, slots, kept]
    rfl

/-- A slot for a new client is free, and on the way from where the search for it starts. -/
theorem getAvailableClientSlot_free {id : BitVec 32} {slot : Nat} (positive : 0 < table.maxClients)
    (available : getAvailableClientSlot table id = some slot) :
    slot < table.maxClients ∧ table.clients slot = -1 ∧
      ∀ steps < offset table.maxClients (id.toNat % table.maxClients) slot,
        table.slots (place table.maxClients (id.toNat % table.maxClients) steps) ≠ none := by
  let stops : Nat → Bool := fun position => decide (table.clients position = -1)
  have startBound := Nat.mod_lt id.toNat positive
  have bound := walk_lt startBound available
  have stopped : stops slot = true := walk_stops available
  refine ⟨bound, of_decide_eq_true stopped, ?_⟩
  have reached := place_offset startBound bound
  rw [← reached] at stopped
  obtain ⟨first, within, firstStop⟩ := exists_firstStop stopped
  have below := offset_lt positive (id.toNat % table.maxClients) slot
  -- The walk ends at the first free slot, so that one is the slot it returns.
  have walked := walk_eq startBound firstStop (by omega : first < table.maxClients)
  have same : slot = place table.maxClients (id.toNat % table.maxClients) first :=
    Option.some.inj (available.symm.trans walked)
  rw [same, offset_place startBound (by omega)]
  intro steps before free
  have occupied := firstStop.2 steps before
  exact of_decide_eq_false occupied (slots_eq_none.mp free)

theorem addClient_indexed (indexed : Indexed table)
    (small : table.lastConnectionClientId.msb = false)
    (added : addClient table true = some next) : Indexed next := by
  rcases Option.bind_eq_some_iff.mp added with ⟨slot, available, added⟩
  obtain ⟨bound, free, path⟩ := getAvailableClientSlot_free indexed.positive available
  have toInt : table.lastConnectionClientId.toInt = table.lastConnectionClientId.toNat := by
    rw [BitVec.toInt_eq_msb_cond, small, if_neg Bool.false_ne_true]
  have taken : table.lastConnectionClientId.toInt ≠ -1 := by omega
  have after : (table.lastConnectionClientId + 1).toNat =
      table.lastConnectionClientId.toNat + 1 := by
    have half := BitVec.msb_eq_false_iff_two_mul_lt.mp small
    rw [BitVec.toNat_add]
    exact Nat.mod_eq_of_lt (by simp; omega)
  have clients : next.clients = Function.update table.clients slot
      table.lastConnectionClientId.toInt := by
    cases added
    rfl
  have max : next.maxClients = table.maxClients := by
    cases added
    rfl
  have last : next.lastConnectionClientId.toNat = table.lastConnectionClientId.toNat + 1 := by
    cases added
    exact after
  have slots := slots_update taken clients
  have count : next.clientCount = table.clientCount + 1 := by
    cases added
    rfl
  have others : ∀ position < table.maxClients, next.clients position ≠ -1 → position ≠ slot →
      table.clients position ≠ -1 ∧ next.clients position = table.clients position ∧
        table.clients position < table.lastConnectionClientId.toNat := by
    intro position below held apart
    rw [clients, Function.update_of_ne apart] at held ⊢
    exact ⟨held, rfl, (indexed.issued position below held).2⟩
  exact {
    positive := max ▸ indexed.positive
    issued := fun position below held => by
      rw [max] at below
      rw [last]
      by_cases same : position = slot
      · rw [same, clients, Function.update_self, toInt]
        omega
      · obtain ⟨before, kept, less⟩ := others position below held same
        rw [kept]
        have nonneg := (indexed.issued position below before).1
        omega
    distinct := fun first firstBound second secondBound held same => by
      rw [max] at firstBound secondBound
      have heldSecond : next.clients second ≠ -1 := same ▸ held
      by_cases firstNew : first = slot
      · by_cases secondNew : second = slot
        · rw [firstNew, secondNew]
        · obtain ⟨_, kept, less⟩ := others second secondBound heldSecond secondNew
          rw [kept, clients, firstNew, Function.update_self, toInt] at same
          omega
      · obtain ⟨before, kept, less⟩ := others first firstBound held firstNew
        by_cases secondNew : second = slot
        · rw [kept, clients, secondNew, Function.update_self, toInt] at same
          omega
        · obtain ⟨_, keptSecond, _⟩ := others second secondBound heldSecond secondNew
          rw [kept, keptSecond] at same
          exact indexed.distinct first firstBound second secondBound before same
    probed := by
      rw [max, slots]
      refine indexed.probed.fill (slots_eq_none.mpr free) ?_
      rw [ClearPath, home, toInt, Int.toNat_natCast]
      exact path
    counted := by
      rw [max, slots, count, indexed.counted]
      exact (entries_fill bound (slots_eq_none.mpr free) _).length_eq.symm }

theorem removeClient_indexed {id : Int} {removed : Bool} (indexed : Indexed table)
    (unpassed : ∀ slot < table.maxClients, table.clients slot = id → Unpassed table slot)
    (freed : removeClient table id = some (next, removed)) : Indexed next := by
  rcases Option.bind_eq_some_iff.mp freed with ⟨result, found, freed⟩
  cases result with
  | none =>
      cases freed
      exact indexed
  | some slot =>
      cases freed
      obtain ⟨taken, bound, rfl⟩ := (indexed.found id slot).mp found
      have kept : ∀ position, (freeSlot table slot).clients position ≠ -1 →
          position ≠ slot ∧ (freeSlot table slot).clients position = table.clients position := by
        intro position held
        have apart : position ≠ slot := by
          rintro rfl
          exact held (Function.update_self ..)
        exact ⟨apart, Function.update_of_ne apart ..⟩
      exact {
        positive := indexed.positive
        issued := fun position below held => by
          obtain ⟨_, same⟩ := kept position held
          rw [same] at held ⊢
          exact indexed.issued position below held
        distinct := fun first firstBound second secondBound held same => by
          obtain ⟨_, keptFirst⟩ := kept first held
          obtain ⟨_, keptSecond⟩ := kept second (same ▸ held)
          rw [keptFirst, keptSecond] at same
          rw [keptFirst] at held
          exact indexed.distinct first firstBound second secondBound held same
        probed := by
          rw [slots_freeSlot]
          intro position below id held steps before
          have apart : position ≠ slot := by
            rintro rfl
            rw [Function.update_self] at held
            cases held
          rw [Function.update_of_ne apart] at held
          obtain ⟨rfl, client⟩ := slots_eq_some.mp held
          rw [Function.update_of_ne]
          · exact indexed.probed position below _ held steps before
          · exact fun passes => unpassed slot bound rfl position below client apart
              ⟨steps, before, passes⟩
        counted := by
          rw [slots_freeSlot]
          have emptied := (entries_empty bound (slots_of_taken taken)).length_eq
          rw [List.length_cons] at emptied
          change table.clientCount - 1 = (entries _ table.maxClients).length
          rw [indexed.counted, emptied, Nat.add_sub_cancel] }

/-- In every run that keeps the ways to the connected clients free of holes, lookups find
exactly these, and the count is right. -/
theorem clients_found {maxClients : Nat} {operations : List Operation} {final : ClientTable}
    (positive : 0 < maxClients)
    (keeps : Guarded step Keeps (initializeClients maxClients) operations)
    (ran : run step (initializeClients maxClients) operations = some final) : Sound final := by
  have indexed : Indexed final := guarded_run_invariant (fun table operation next indexed keeps
      stepped => by
    cases operation with
    | addClient allocated =>
        obtain ⟨rfl, small⟩ := keeps
        exact addClient_indexed indexed small stepped
    | removeClient id =>
        obtain ⟨⟨after, removed⟩, freed, rfl⟩ := Option.map_eq_some_iff.mp stepped
        exact removeClient_indexed indexed keeps freed)
    (initializeClients_indexed positive) keeps ran
  exact indexed.sound

/-! ## Clients on fixed input -/

/-- Two slots: the client 3 takes the slot that client 2 left, after the one that client 1 has. -/
def sampleOperations : List Operation :=
  [.addClient true, .addClient true, .removeClient 2, .addClient true]

theorem clients_found_behind_another :
    ∃ final, run step (initializeClients 2) sampleOperations = some final ∧ Sound final := by
  have reached : (run step (initializeClients 2) sampleOperations).isSome = true := by
    decide +kernel
  obtain ⟨final, ran⟩ := Option.isSome_iff_exists.mp reached
  have keeps : Guarded step Keeps (initializeClients 2) sampleOperations := by
    decide +kernel
  exact ⟨final, ran, clients_found (by decide) keeps ran⟩

/-- Without client 1, the search for client 3 ends at the slot it left. -/
theorem clients_found_fails_behind_a_hole : ¬ ∀ (operations : List Operation)
    (final : ClientTable), run step (initializeClients 2) operations = some final →
      Sound final := by
  intro always
  have reached : (run step (initializeClients 2) (sampleOperations ++ [.removeClient 1])).map
      (fun final => (final.clients 0, getClient final 3)) = some (3, some none) := by
    decide +kernel
  obtain ⟨final, ran, missed⟩ := Option.map_eq_some_iff.mp reached
  obtain ⟨there, missed⟩ := Prod.mk.inj missed
  have sizes : (run step (initializeClients 2) (sampleOperations ++ [.removeClient 1])).map
      ClientTable.maxClients = some 2 := by
    decide +kernel
  rw [ran] at sizes
  have found := (always _ final ran).found 3 0
  rw [missed, there, Option.some.inj sizes] at found
  exact absurd (found.mpr ⟨by decide, by decide, rfl⟩) (by decide)

end TellyDB.Server.ClientTable
