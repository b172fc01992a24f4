import TellyDB.Lib.Circular

/-!
Owns the two walks a probe makes around a ring of slots: forward until a test
holds, and forward until a test holds or the walk is back at its origin. Both
count their turns, so that a walk that would not end is visible as `none`.
-/

namespace TellyDB.Lib.RingWalk

open Circular

variable {capacity : Nat} {stops : Nat → Bool}

/-- `while (!stops(index)) index = (index + 1) % capacity`. -/
def walk (capacity : Nat) (stops : Nat → Bool) : Nat → Nat → Option Nat
  | 0, _ => none
  | fuel + 1, index =>
      if stops index then some index
      else walk capacity stops fuel ((index + 1) % capacity)

/-- The same walk, given up with `some none` once it returns to `origin`. -/
def walkOnce (capacity : Nat) (stops : Nat → Bool) (origin : Nat) :
    Nat → Nat → Option (Option Nat)
  | 0, _ => none
  | fuel + 1, index =>
      if stops index then some (some index)
      else
        let next := (index + 1) % capacity
        if next = origin then some none
        else walkOnce capacity stops origin fuel next

/-- `steps` turns from `start` the test holds for the first time. -/
def FirstStop (capacity : Nat) (stops : Nat → Bool) (start steps : Nat) : Prop :=
  stops (place capacity start steps) = true ∧
    ∀ earlier < steps, stops (place capacity start earlier) = false

theorem exists_firstStop {start steps : Nat}
    (reached : stops (place capacity start steps) = true) :
    ∃ first ≤ steps, FirstStop capacity stops start first := by
  classical
  have exists_stop : ∃ steps, stops (place capacity start steps) = true := ⟨steps, reached⟩
  refine ⟨Nat.find exists_stop, Nat.find_le reached, Nat.find_spec exists_stop, ?_⟩
  intro earlier below
  simpa using Nat.find_min exists_stop below

/-- A walk that ends, ends where the test holds. -/
theorem walk_stops {start fuel found : Nat}
    (ended : walk capacity stops fuel start = some found) : stops found = true := by
  induction fuel generalizing start with
  | zero => cases ended
  | succ fuel inductionHypothesis =>
      unfold walk at ended
      split at ended
      · next stopped =>
          cases ended
          exact stopped
      · exact inductionHypothesis ended

/-- A walk that starts in the ring stays in it. -/
theorem walk_lt {start fuel found : Nat} (startBound : start < capacity)
    (ended : walk capacity stops fuel start = some found) : found < capacity := by
  induction fuel generalizing start with
  | zero => cases ended
  | succ fuel inductionHypothesis =>
      unfold walk at ended
      split at ended
      · cases ended
        exact startBound
      · exact inductionHypothesis (Nat.mod_lt _ (Nat.zero_lt_of_lt startBound)) ended

theorem walk_eq {start steps fuel : Nat} (startBound : start < capacity)
    (first : FirstStop capacity stops start steps) (enough : steps < fuel) :
    walk capacity stops fuel start = some (place capacity start steps) := by
  induction steps generalizing start fuel with
  | zero =>
      obtain ⟨fuel, rfl⟩ := Nat.exists_eq_add_of_lt enough
      have stopped := first.1
      rw [place_zero startBound] at stopped ⊢
      simp [walk, stopped]
  | succ steps inductionHypothesis =>
      obtain ⟨fuel, rfl⟩ : ∃ rest, fuel = rest + 1 := ⟨fuel - 1, by omega⟩
      have going := first.2 0 (by omega)
      rw [place_zero startBound] at going
      have shift : ∀ offset, place capacity ((start + 1) % capacity) offset =
          place capacity start (offset + 1) := by
        intro offset
        have step : (start + 1) % capacity = place capacity start 1 := rfl
        rw [step, place_place, Nat.add_comm]
      have later : FirstStop capacity stops ((start + 1) % capacity) steps := by
        refine ⟨?_, ?_⟩
        · rw [shift]
          exact first.1
        · intro earlier below
          rw [shift]
          exact first.2 (earlier + 1) (by omega)
      simp only [walk, going, Bool.false_eq_true, ↓reduceIte]
      rw [inductionHypothesis (Nat.mod_lt _ (by omega)) later (by omega), shift]

/-- One turn of a walk that has not stopped: `steps + 1` is back at the origin
exactly when the whole ring was seen. -/
private theorem next_eq_origin {origin steps : Nat} (originBound : origin < capacity)
    (bound : steps < capacity) :
    (place capacity origin steps + 1) % capacity = origin ↔ steps + 1 = capacity := by
  rw [← place_succ]
  constructor
  · intro returned
    by_contra partway
    have offsets := congrArg (offset capacity origin) returned
    rw [offset_place originBound (by omega), offset_self originBound] at offsets
    omega
  · intro whole
    rw [whole]
    simp [place, Nat.mod_eq_of_lt originBound]

theorem walkOnce_eq_some {origin steps fuel : Nat} (originBound : origin < capacity)
    (bound : steps < capacity) (first : FirstStop capacity stops origin steps)
    (enough : steps < fuel) :
    walkOnce capacity stops origin fuel origin = some (some (place capacity origin steps)) := by
  have from_offset : ∀ remaining fuel, remaining ≤ steps → remaining < fuel →
      walkOnce capacity stops origin fuel (place capacity origin (steps - remaining)) =
        some (some (place capacity origin steps)) := by
    intro remaining
    induction remaining with
    | zero =>
        intro fuel _ enough
        obtain ⟨fuel, rfl⟩ : ∃ rest, fuel = rest + 1 := ⟨fuel - 1, by omega⟩
        simp [walkOnce, first.1]
    | succ remaining inductionHypothesis =>
        intro fuel within enough
        obtain ⟨fuel, rfl⟩ : ∃ rest, fuel = rest + 1 := ⟨fuel - 1, by omega⟩
        have going := first.2 (steps - (remaining + 1)) (by omega)
        have partway := next_eq_origin originBound
          (by omega : steps - (remaining + 1) < capacity)
        have further : steps - (remaining + 1) + 1 = steps - remaining := by omega
        have next : (place capacity origin (steps - (remaining + 1)) + 1) % capacity =
            place capacity origin (steps - remaining) := by
          rw [← place_succ, further]
        simp only [walkOnce, going, Bool.false_eq_true, ↓reduceIte]
        rw [if_neg (by rw [partway]; omega), next]
        exact inductionHypothesis fuel (by omega) (by omega)
  have whole := from_offset steps fuel le_rfl enough
  rwa [Nat.sub_self, place_zero originBound] at whole

theorem walkOnce_eq_none {origin fuel : Nat} (originBound : origin < capacity)
    (never : ∀ steps < capacity, stops (place capacity origin steps) = false)
    (enough : capacity ≤ fuel) :
    walkOnce capacity stops origin fuel origin = some none := by
  have from_offset : ∀ remaining fuel, 0 < remaining → remaining ≤ capacity →
      remaining ≤ fuel →
      walkOnce capacity stops origin fuel (place capacity origin (capacity - remaining)) =
        some none := by
    intro remaining
    induction remaining with
    | zero => omega
    | succ remaining inductionHypothesis =>
        intro fuel _ within enough
        obtain ⟨fuel, rfl⟩ : ∃ rest, fuel = rest + 1 := ⟨fuel - 1, by omega⟩
        have going := never (capacity - (remaining + 1)) (by omega)
        have returned := next_eq_origin originBound
          (by omega : capacity - (remaining + 1) < capacity)
        simp only [walkOnce, going, Bool.false_eq_true, ↓reduceIte]
        by_cases last : remaining = 0
        · rw [if_pos (by rw [returned]; omega)]
        · have further : capacity - (remaining + 1) + 1 = capacity - remaining := by omega
          have next : (place capacity origin (capacity - (remaining + 1)) + 1) % capacity =
              place capacity origin (capacity - remaining) := by
            rw [← place_succ, further]
          rw [if_neg (by rw [returned]; omega), next]
          exact inductionHypothesis fuel (by omega) (by omega) (by omega)
  have whole := from_offset capacity fuel (by omega) le_rfl enough
  rwa [Nat.sub_self, place_zero originBound] at whole

/-- Every slot is some number of steps from the origin. -/
theorem forall_place_iff {origin : Nat} (originBound : origin < capacity) (test : Nat → Prop) :
    (∀ steps < capacity, test (place capacity origin steps)) ↔
      ∀ position < capacity, test position := by
  have positive : 0 < capacity := by omega
  constructor
  · intro all position bound
    rw [← place_offset originBound bound]
    exact all _ (offset_lt positive origin position)
  · intro all steps _
    exact all _ (place_lt positive origin steps)

end TellyDB.Lib.RingWalk
