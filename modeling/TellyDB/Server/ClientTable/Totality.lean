import TellyDB.Server.ClientTable.Lookup

/-!
Owns when `get_client` returns: which slots its loop reads, and for which ids and tables it stays
inside the table and ends within one turn for every slot.
-/

namespace TellyDB.Server.ClientTable

open Lib Circular

variable {table : ClientTable} {id : Int} {start : Nat}

/-- The loop of `get_client` from a slot on: the slots whose id it reads, in order, and the slot
that it returns. -/
inductive Searches (table : ClientTable) (id : Int) (start : Nat) :
    Nat → List Nat → Option Nat → Prop
  | free {position : Nat} (empty : table.clients position = -1) :
      Searches table id start position [position] none
  | found {position : Nat} (taken : table.clients position ≠ -1)
      (same : table.clients position = id) :
      Searches table id start position [position] (some position)
  | wrapped {position : Nat} {probes : List Nat} {result : Option Nat}
      (taken : table.clients position ≠ -1) (other : table.clients position ≠ id)
      (last : position + 1 = table.maxClients) (rest : Searches table id start 0 probes result) :
      Searches table id start position (position :: probes) result
  | around {position : Nat} (taken : table.clients position ≠ -1)
      (other : table.clients position ≠ id) (inner : position + 1 ≠ table.maxClients)
      (back : position + 1 = start) : Searches table id start position [position] none
  | onward {position : Nat} {probes : List Nat} {result : Option Nat}
      (taken : table.clients position ≠ -1) (other : table.clients position ≠ id)
      (inner : position + 1 ≠ table.maxClients) (further : position + 1 ≠ start)
      (rest : Searches table id start (position + 1) probes result) :
      Searches table id start position (position :: probes) result

/-- The first slot that `get_client` reads: the remainder has the sign of the id, and `start` is
a `uint32_t`. -/
def firstProbe (table : ClientTable) (id : Int) : Nat :=
  (BitVec.ofInt 32 (id.tmod table.maxClients)).toNat

/-- `get_client` reads slots of the table only, at most as many as there are, and returns. -/
def Returns (table : ClientTable) (id : Int) (result : Option Nat) : Prop :=
  id = -1 ∧ result = none ∨
    id ≠ -1 ∧ ∃ probes,
      Searches table id (firstProbe table id) (firstProbe table id) probes result ∧
        (∀ position ∈ probes, position < table.maxClients) ∧ probes.length ≤ table.maxClients

/-- The search does not start at a negative index, and a search from slot 0, which has no end of
its own, ends at a free slot or at the client. -/
def Answerable (table : ClientTable) (id : Int) : Prop :=
  id = -1 ∨ 0 ≤ id.tmod table.maxClients ∧
    (id.tmod table.maxClients = 0 →
      ∃ slot < table.maxClients, table.clients slot = -1 ∨ table.clients slot = id)

/-! ## The loop and its turns -/

theorem Searches.head_mem {position : Nat} {probes : List Nat} {result : Option Nat}
    (searches : Searches table id start position probes result) : position ∈ probes := by
  cases searches <;> exact List.mem_cons_self

/-- Counting the turns is counting the slots that are read. -/
theorem getClientFrom_eq_some_iff {turns position : Nat} {result : Option Nat} :
    getClientFrom table id start turns position = some result ↔
      ∃ probes, Searches table id start position probes result ∧ probes.length ≤ turns := by
  constructor
  · intro ended
    induction turns generalizing position with
    | zero => cases ended
    | succ turns inductionHypothesis =>
        rw [getClientFrom] at ended
        split at ended
        · rename_i empty
          cases ended
          exact ⟨[position], .free empty, Nat.succ_le_succ (Nat.zero_le _)⟩
        · rename_i taken
          split at ended
          · rename_i same
            cases ended
            exact ⟨[position], .found taken same, Nat.succ_le_succ (Nat.zero_le _)⟩
          · rename_i other
            split at ended
            · rename_i last
              obtain ⟨probes, searches, within⟩ := inductionHypothesis ended
              exact ⟨_, .wrapped taken other last searches, Nat.succ_le_succ within⟩
            · rename_i inner
              split at ended
              · rename_i back
                cases ended
                exact ⟨[position], .around taken other inner back,
                  Nat.succ_le_succ (Nat.zero_le _)⟩
              · rename_i further
                obtain ⟨probes, searches, within⟩ := inductionHypothesis ended
                exact ⟨_, .onward taken other inner further searches, Nat.succ_le_succ within⟩
  · rintro ⟨probes, searches, within⟩
    induction searches generalizing turns with
    | free empty =>
        obtain ⟨turns, rfl⟩ : ∃ fewer, turns = fewer + 1 := ⟨turns - 1, by grind⟩
        rw [getClientFrom, if_pos empty]
    | found taken same =>
        obtain ⟨turns, rfl⟩ : ∃ fewer, turns = fewer + 1 := ⟨turns - 1, by grind⟩
        rw [getClientFrom, if_neg taken, if_pos same]
    | wrapped taken other last rest inductionHypothesis =>
        obtain ⟨turns, rfl⟩ : ∃ fewer, turns = fewer + 1 := ⟨turns - 1, by grind⟩
        rw [getClientFrom, if_neg taken, if_neg other, if_pos last]
        exact inductionHypothesis (Nat.le_of_succ_le_succ within)
    | around taken other inner back =>
        obtain ⟨turns, rfl⟩ : ∃ fewer, turns = fewer + 1 := ⟨turns - 1, by grind⟩
        rw [getClientFrom, if_neg taken, if_neg other, if_neg inner, if_pos back]
    | onward taken other inner further rest inductionHypothesis =>
        obtain ⟨turns, rfl⟩ : ∃ fewer, turns = fewer + 1 := ⟨turns - 1, by grind⟩
        rw [getClientFrom, if_neg taken, if_neg other, if_neg inner, if_neg further]
        exact inductionHypothesis (Nat.le_of_succ_le_succ within)

/-- From a slot of the table on only slots of the table are read. -/
theorem Searches.inside {position : Nat} {probes : List Nat} {result : Option Nat}
    (searches : Searches table id start position probes result)
    (bound : position < table.maxClients) : ∀ probe ∈ probes, probe < table.maxClients := by
  induction searches with
  | free | found | around =>
      intro probe member
      rw [List.mem_singleton] at member
      exact member ▸ bound
  | wrapped taken other last rest inductionHypothesis =>
      intro probe member
      rcases List.mem_cons.mp member with rfl | later
      · exact bound
      · exact inductionHypothesis (by omega) probe later
  | onward taken other inner further rest inductionHypothesis =>
      intro probe member
      rcases List.mem_cons.mp member with rfl | later
      · exact bound
      · exact inductionHypothesis (by omega) probe later

/-! ## Where the loop ends -/

/-- A search that does not start at slot 0 comes back to where it started. -/
theorem getClientFrom_returns (startBound : start < table.maxClients) (inner : start ≠ 0) :
    (getClientFrom table id start table.maxClients start).isSome := by
  have search : ∀ turns, turns ≤ table.maxClients → 0 < turns →
      (getClientFrom table id start turns
        (place table.maxClients start (table.maxClients - turns))).isSome := by
    intro turns
    induction turns with
    | zero => exact fun _ positive => absurd positive (Nat.lt_irrefl 0)
    | succ turns inductionHypothesis =>
        intro within _
        have bound := place_lt (Nat.zero_lt_of_lt startBound) start
          (table.maxClients - (turns + 1))
        have next : place table.maxClients start (table.maxClients - turns) =
            (place table.maxClients start (table.maxClients - (turns + 1)) + 1) %
              table.maxClients := by
          rw [← place_succ]
          congr 1
          omega
        rw [getClientFrom]
        split_ifs with empty same last back
        · rfl
        · rfl
        · rw [last, Nat.mod_self] at next
          rw [← next]
          refine inductionHypothesis (by omega) (Nat.pos_of_ne_zero fun ended => ?_)
          rw [ended, Nat.sub_zero, place, Nat.add_mod_right, Nat.mod_eq_of_lt startBound] at next
          exact inner next
        · rfl
        · rw [Nat.mod_eq_of_lt (by omega)] at next
          rw [← next]
          refine inductionHypothesis (by omega) (Nat.pos_of_ne_zero fun ended => ?_)
          subst ended
          rw [Nat.sub_zero, place, Nat.add_mod_right, Nat.mod_eq_of_lt startBound] at next
          exact back next.symm
  have whole := search table.maxClients (Nat.le_refl _) (Nat.zero_lt_of_lt startBound)
  rwa [Nat.sub_self, place_zero startBound] at whole

/-- A search from slot 0 on ends at a slot that is free or the client's. -/
theorem getClientFrom_stops {slot : Nat} (bound : slot < table.maxClients)
    (stops : table.clients slot = -1 ∨ table.clients slot = id) :
    (getClientFrom table id 0 table.maxClients 0).isSome := by
  have search : ∀ turns position, position ≤ slot → slot < position + turns →
      (getClientFrom table id 0 turns position).isSome := by
    intro turns
    induction turns with
    | zero => omega
    | succ turns inductionHypothesis =>
        intro position before within
        rw [getClientFrom, if_neg (Nat.succ_ne_zero position)]
        split_ifs with empty same last
        · rfl
        · rfl
        · obtain rfl : position = slot := by omega
          exact absurd stops (not_or.mpr ⟨empty, same⟩)
        · refine inductionHypothesis (position + 1) ?_ (by omega)
          rcases Nat.lt_or_eq_of_le before with earlier | rfl
          · exact earlier
          · exact absurd stops (not_or.mpr ⟨empty, same⟩)
  exact search table.maxClients 0 (Nat.zero_le _) (by omega)

/-- In a table that is full of other clients a search from slot 0 on never ends. -/
theorem getClientFrom_endless {turns position : Nat} (bound : position < table.maxClients)
    (others : ∀ slot < table.maxClients, table.clients slot ≠ -1 ∧ table.clients slot ≠ id) :
    getClientFrom table id 0 turns position = none := by
  induction turns generalizing position with
  | zero => rfl
  | succ turns inductionHypothesis =>
      obtain ⟨taken, other⟩ := others position bound
      rw [getClientFrom, if_neg taken, if_neg other, if_neg (Nat.succ_ne_zero position)]
      split_ifs with last
      · exact inductionHypothesis (by omega)
      · exact inductionHypothesis (by omega)

/-- A search from a slot of the table returns when it is not one from slot 0 that finds neither a
free slot nor the client. -/
theorem getClientFrom_isSome_iff (bound : start < table.maxClients) :
    (getClientFrom table id start table.maxClients start).isSome ↔
      (start = 0 → ∃ slot < table.maxClients, table.clients slot = -1 ∨ table.clients slot = id) := by
  by_cases first : start = 0
  · subst first
    constructor
    · intro returns _
      by_contra others
      push Not at others
      rw [getClientFrom_endless bound others] at returns
      cases returns
    · intro stops
      obtain ⟨slot, inside, stop⟩ := stops rfl
      exact getClientFrom_stops inside stop
  · constructor
    · intro _ zero
      exact absurd zero first
    · intro _
      exact getClientFrom_returns bound first

/-! ## The first slot -/

/-- A negative remainder is an index far behind the table. -/
theorem le_firstProbe_of_negative (small : table.maxClients < 2 ^ 16)
    (positive : 1 ≤ table.maxClients) (negative : id.tmod table.maxClients < 0) :
    table.maxClients ≤ firstProbe table id := by
  have lower : -(table.maxClients : Int) < id.tmod table.maxClients :=
    Int.lt_tmod_of_pos id (by omega)
  rw [firstProbe, BitVec.toNat_ofInt]
  omega

theorem firstProbe_of_nonneg (small : table.maxClients < 2 ^ 16)
    (positive : 1 ≤ table.maxClients) (remainder : 0 ≤ id.tmod table.maxClients) :
    firstProbe table id = (id.tmod table.maxClients).toNat ∧
      firstProbe table id < table.maxClients := by
  have upper : id.tmod table.maxClients < table.maxClients := Int.tmod_lt_of_pos id (by omega)
  rw [firstProbe, BitVec.toNat_ofInt]
  omega

/-! ## When it returns -/

/-- The lookup ends with a result when the loop of `get_client` returns it. -/
theorem getClient_eq_some_iff {result : Option Nat} (positive : 1 ≤ table.maxClients)
    (small : table.maxClients < 2 ^ 16) :
    getClient table id = some result ↔ Returns table id result := by
  rw [getClient, Returns]
  by_cases closed : id = -1
  · simp [closed, eq_comm]
  rw [if_neg closed]
  by_cases negative : id.tmod table.maxClients < 0
  · have beyond := le_firstProbe_of_negative small positive negative
    rw [if_pos negative]
    constructor
    · intro ended
      cases ended
    · rintro (⟨same, _⟩ | ⟨_, probes, searches, inside, _⟩)
      · exact absurd same closed
      · exact absurd (inside _ searches.head_mem) (Nat.not_lt.mpr beyond)
  · obtain ⟨first, bound⟩ := firstProbe_of_nonneg small positive (Int.not_lt.mp negative)
    rw [if_neg negative, ← first, getClientFrom_eq_some_iff]
    constructor
    · rintro ⟨probes, searches, within⟩
      exact .inr ⟨closed, probes, searches, searches.inside bound, within⟩
    · rintro (⟨same, _⟩ | ⟨_, probes, searches, _, within⟩)
      · exact absurd same closed
      · exact ⟨probes, searches, within⟩

theorem getClient_isSome_iff (positive : 1 ≤ table.maxClients)
    (small : table.maxClients < 2 ^ 16) :
    (getClient table id).isSome ↔ Answerable table id := by
  rw [getClient, Answerable]
  by_cases closed : id = -1
  · simp [closed]
  rw [if_neg closed]
  by_cases negative : id.tmod table.maxClients < 0
  · simp [negative, closed]
  · obtain ⟨first, bound⟩ := firstProbe_of_nonneg small positive (Int.not_lt.mp negative)
    have zero : firstProbe table id = 0 ↔ id.tmod table.maxClients = 0 := by omega
    rw [if_neg negative, ← first, getClientFrom_isSome_iff bound, zero]
    simp [closed, Int.not_lt.mp negative]

/-- The loop of `get_client` stays inside the table and ends within a turn for every slot exactly
when the id is answerable. -/
theorem exists_returns_iff (id : BitVec 32) (positive : 1 ≤ table.maxClients)
    (small : table.maxClients < 2 ^ 16) :
    (∃ result, Returns table id.toInt result) ↔ Answerable table id.toInt := by
  rw [← getClient_isSome_iff positive small, Option.isSome_iff_exists]
  exact exists_congr fun result => (getClient_eq_some_iff positive small).symm

/-- The table of a server with two clients, which is full. -/
def crowded : ClientTable where
  maxClients := 2
  clients slot := if slot = 0 then 2 else 1
  clientCount := 2
  lastConnectionClientId := 3

theorem exists_returns_iff_of_crowded :
    (∃ result, Returns crowded (BitVec.ofNat 32 2).toInt result) ↔
      Answerable crowded (BitVec.ofNat 32 2).toInt :=
  exists_returns_iff (BitVec.ofNat 32 2) (by decide) (by decide)

/-- For an id that is not in a full table and whose search starts at slot 0, and for one that is
negative as an `int`, the loop does not return. -/
theorem not_forall_returns :
    ¬ ∀ (table : ClientTable) (id : BitVec 32), 1 ≤ table.maxClients →
      table.maxClients < 2 ^ 16 → ∃ result, Returns table id.toInt result := by
  intro every
  obtain ⟨result, ⟨same, _⟩ | ⟨_, probes, searches, _, within⟩⟩ :=
    every crowded 4 (by decide) (by decide)
  · exact absurd same (by decide)
  have ended := getClientFrom_eq_some_iff.mpr ⟨probes, searches, within⟩
  cases ended

end TellyDB.Server.ClientTable
