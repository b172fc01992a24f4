import TellyDB.Lib.Slices

/-!
Owns writers: functions that fill the front of a buffer and return how much of it they
count. A writer may use some places behind what it counts, and the next one fills them.
-/

namespace TellyDB.Lib.Writers

open Slices

variable {α β : Type*}

/-- `none` is a write outside of the buffer. -/
abbrev Writer (α : Type*) := List α → Option (Nat × List α)

/-- Writes a part that does not depend on the buffer. -/
def constant (part : List α) : Writer α := fun buf => do
  let buf ← put buf 0 part
  some (part.length, buf)

/-- A writer behind what is counted so far. -/
def append (write : Writer α) (response : Nat × List α) : Option (Nat × List α) := do
  let (count, rest) ← write (response.2.drop response.1)
  some (response.1 + count, response.2.take response.1 ++ rest)

/-- One writer behind the other. -/
def andThen (first second : Writer α) : Writer α := fun buf => do
  let response ← first buf
  append second response

/-- In every buffer of at most `limit` places that has room for it, and `spare` more, the
writer counts exactly `part`. -/
def Writes (limit spare : Nat) (write : Writer α) (part : List α) : Prop :=
  ∀ buf, part.length + spare ≤ buf.length → buf.length ≤ limit →
    ∃ rest, write buf = some (part.length, part ++ rest) ∧ part.length + rest.length = buf.length

/-- The writer counts only places of its buffer. -/
def Counts (write : Writer α) : Prop :=
  ∀ buf count after, write buf = some (count, after) → count ≤ after.length

/-- `part` is counted in a buffer of `size` places. -/
def Filled (size : Nat) (part : List α) (response : Nat × List α) : Prop :=
  ∃ rest, response = (part.length, part ++ rest) ∧ part.length + rest.length = size

section Parts

variable {limit spare size : Nat} {write first second : Writer α} {part front : List α}
  {response : Nat × List α}

theorem Filled.take (filled : Filled size part response) :
    response.2.take response.1 = part := by
  rcases filled with ⟨rest, rfl, _⟩
  exact List.take_left

theorem writes_constant (part : List α) : Writes limit 0 (constant part) part := by
  intro buf room small
  refine ⟨buf.drop part.length, ?_, ?_⟩
  · rw [constant, put_zero room]
    rfl
  · rw [List.length_drop]
    omega

/-- A writer adds its part to what is counted. -/
theorem Filled.append (filled : Filled size front response)
    (writes : Writes limit spare write part) (room : front.length + part.length + spare ≤ size)
    (small : size ≤ limit) :
    ∃ after, Writers.append write response = some after ∧ Filled size (front ++ part) after := by
  rcases filled with ⟨rest, rfl, total⟩
  rcases writes rest (by omega) (by omega) with ⟨behind, written, left⟩
  refine ⟨((front ++ part).length, front ++ part ++ behind), ?_, behind, rfl, ?_⟩
  · rw [Writers.append]
    simp only [List.drop_left, List.take_left, written, Option.bind_eq_bind, Option.bind_some,
      List.length_append, List.append_assoc]
  · rw [List.length_append]
    omega

/-- What the first writer has to spare, the second one fills. -/
theorem Writes.andThen {other : List α} {more : Nat} (before : Writes limit spare first part)
    (behind : Writes limit more second other) (covers : spare ≤ other.length + more) :
    Writes limit more (andThen first second) (part ++ other) := by
  intro buf room small
  rw [List.length_append] at room
  rcases before buf (by omega) small with ⟨rest, written, total⟩
  rcases Filled.append ⟨rest, rfl, total⟩ behind (by omega) small with ⟨after, appended, rest, rfl,
    left⟩
  refine ⟨rest, ?_, left⟩
  rw [Writers.andThen, written]
  exact appended

/-- The parts of a list one behind the other. -/
theorem Filled.foldl {entries : List β} {writer : β → Writer α} {parts : β → List α}
    (filled : Filled size front response)
    (writes : ∀ entry ∈ entries, Writes limit 0 (writer entry) (parts entry))
    (room : front.length + (entries.flatMap parts).length ≤ size) (small : size ≤ limit) :
    ∃ after, entries.foldl (fun response entry =>
        response.bind (Writers.append (writer entry))) (some response) = some after ∧
      Filled size (front ++ entries.flatMap parts) after := by
  induction entries generalizing front response with
  | nil => exact ⟨response, rfl, by simpa using filled⟩
  | cons entry rest inductionHypothesis =>
      rw [List.flatMap_cons, List.length_append] at room
      rcases filled.append (writes entry List.mem_cons_self) (by omega) small with
        ⟨middle, appended, filledMiddle⟩
      have left : (front ++ parts entry).length + (rest.flatMap parts).length ≤ size := by
        rw [List.length_append]
        omega
      rcases inductionHypothesis filledMiddle
        (fun other member => writes other (List.mem_cons_of_mem _ member)) left with
        ⟨after, folded, filledAfter⟩
      refine ⟨after, ?_, ?_⟩
      · rw [List.foldl_cons, Option.bind_some, appended]
        exact folded
      · rw [List.flatMap_cons, ← List.append_assoc]
        exact filledAfter

/-! ## Places that are counted -/

theorem counts_constant (part : List α) : Counts (constant part) := by
  intro buf count after written
  obtain ⟨placed, put, written⟩ := Option.bind_eq_some_iff.mp written
  cases written
  have inside := put_inside put
  omega

/-- A writer behind what is counted keeps it, and counts what it writes. -/
theorem append_eq_some {after : Nat × List α} (counts : Counts write)
    (within : response.1 ≤ response.2.length) (appended : append write response = some after) :
    ∃ count rest, write (response.2.drop response.1) = some (count, rest) ∧
      after.2.take after.1 = response.2.take response.1 ++ rest.take count ∧
      after.1 ≤ after.2.length := by
  obtain ⟨⟨count, rest⟩, written, returned⟩ := Option.bind_eq_some_iff.mp appended
  cases returned
  have length : (response.2.take response.1).length = response.1 := by
    rw [List.length_take, Nat.min_eq_left within]
  have inside := counts _ _ _ written
  refine ⟨count, rest, written, ?_, ?_⟩
  · dsimp only
    rw [List.take_append, length, Nat.add_sub_cancel_left, List.take_of_length_le (by omega)]
  · rw [List.length_append, length]
    exact Nat.add_le_add_left inside _

theorem Counts.andThen (before : Counts first) (behind : Counts second) :
    Counts (andThen first second) := by
  intro buf count after written
  obtain ⟨response, earlier, appended⟩ := Option.bind_eq_some_iff.mp written
  obtain ⟨_, _, _, _, inside⟩ := append_eq_some behind (before _ _ _ earlier) appended
  exact inside

end Parts

end TellyDB.Lib.Writers
