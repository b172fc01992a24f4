import Mathlib.Data.List.Nodup
import Mathlib.Logic.Function.Basic

/-!
Owns custody of allocated objects: each of them is held by one holder, or
stands once in a line. The rules say how creating, moving and freeing an object
keeps that.
-/

namespace TellyDB.Lib

variable {S A B : Type*}

/-- The allocated objects are those that a holder holds or that stand in the
line, and each of them is in one such place only. -/
structure Custody (held : S → Option A) (line : List A) (objects : A → Option B) : Prop where
  allocated_iff : ∀ address, objects address ≠ none ↔
    address ∈ line ∨ ∃ holder, held holder = some address
  distinct : line.Nodup
  apart : ∀ holder address, held holder = some address → address ∉ line
  single : ∀ first second address, held first = some address →
    held second = some address → first = second

namespace Custody

variable {held : S → Option A} {line : List A} {objects : A → Option B} {address : A}

theorem allocated_of_line (custody : Custody held line objects) (member : address ∈ line) :
    objects address ≠ none :=
  (custody.allocated_iff address).mpr (.inl member)

theorem allocated_of_held (custody : Custody held line objects) {holder : S}
    (holds : held holder = some address) : objects address ≠ none :=
  (custody.allocated_iff address).mpr (.inr ⟨holder, holds⟩)

theorem not_in_line_of_free (custody : Custody held line objects)
    (free : objects address = none) : address ∉ line :=
  fun member => custody.allocated_of_line member free

theorem not_held_of_free (custody : Custody held line objects) (free : objects address = none)
    (holder : S) : held holder ≠ some address :=
  fun holds => custody.allocated_of_held holds free

section Rules

variable [DecidableEq S] [DecidableEq A]

omit [DecidableEq A] in
theorem held_of_update {holder other : S} {value : Option A}
    (holds : Function.update held holder value other = some address) :
    (other = holder ∧ value = some address) ∨ (other ≠ holder ∧ held other = some address) := by
  rw [Function.update_apply] at holds
  split at holds
  · exact .inl ⟨‹_›, holds⟩
  · exact .inr ⟨‹_›, holds⟩

omit [DecidableEq S] in
/-- An object changes in place. -/
theorem write (custody : Custody held line objects) (allocated : objects address ≠ none)
    (object : B) : Custody held line (Function.update objects address (some object)) where
  allocated_iff other := by
    rw [← custody.allocated_iff, Function.update_apply]
    split
    · rename_i same
      simp [same, allocated]
    · rfl
  distinct := custody.distinct
  apart := custody.apart
  single := custody.single

omit [DecidableEq S] in
/-- A new object joins the line. -/
theorem join (custody : Custody held line objects) (free : objects address = none)
    (object : B) :
    Custody held (line ++ [address]) (Function.update objects address (some object)) where
  allocated_iff other := by
    rw [List.mem_append, List.mem_singleton, Function.update_apply]
    split
    · rename_i same
      simp [same]
    · rename_i different
      simp [custody.allocated_iff, different]
  distinct := by
    rw [← List.concat_eq_append]
    exact custody.distinct.concat (custody.not_in_line_of_free free)
  apart holder other holds member := by
    rcases List.mem_append.mp member with before | last
    · exact custody.apart holder other holds before
    · rw [List.mem_singleton.mp last] at holds
      exact custody.not_held_of_free free holder holds
  single := custody.single

/-- A new object goes to a holder without one. -/
theorem give (custody : Custody held line objects) (free : objects address = none)
    {holder : S} (empty : held holder = none) (object : B) :
    Custody (Function.update held holder (some address)) line
      (Function.update objects address (some object)) where
  allocated_iff other := by
    rw [Function.update_apply]
    split
    · rename_i same
      simp only [ne_eq, reduceCtorEq, not_false_eq_true, true_iff]
      exact .inr ⟨holder, by rw [Function.update_self, same]⟩
    · rename_i different
      rw [custody.allocated_iff]
      refine or_congr_right ⟨?_, ?_⟩
      · rintro ⟨other, holds⟩
        refine ⟨other, ?_⟩
        rwa [Function.update_of_ne]
        rintro rfl
        rw [empty] at holds
        cases holds
      · rintro ⟨_, holds⟩
        rcases held_of_update holds with ⟨_, same⟩ | ⟨_, holds⟩
        · exact absurd (Option.some.inj same).symm different
        · exact ⟨_, holds⟩
  distinct := custody.distinct
  apart other reached holds := by
    rcases held_of_update holds with ⟨_, same⟩ | ⟨_, holds⟩
    · cases same
      exact custody.not_in_line_of_free free
    · exact custody.apart other reached holds
  single first second reached holdsFirst holdsSecond := by
    rcases held_of_update holdsFirst with ⟨isFirst, same⟩ | ⟨_, foundFirst⟩ <;>
      rcases held_of_update holdsSecond with ⟨isSecond, sameSecond⟩ | ⟨_, foundSecond⟩
    · exact isFirst.trans isSecond.symm
    · cases same
      exact absurd foundSecond (custody.not_held_of_free free second)
    · cases sameSecond
      exact absurd foundFirst (custody.not_held_of_free free first)
    · exact custody.single _ _ _ foundFirst foundSecond

omit [DecidableEq A] in
/-- What is held once a holder let go of its object. -/
theorem held_elsewhere (custody : Custody held line objects) {holder : S}
    (holds : held holder = some address) (other : A) :
    (∃ reached, Function.update held holder none reached = some other) ↔
      other ≠ address ∧ ∃ reached, held reached = some other := by
  constructor
  · rintro ⟨reached, found⟩
    rcases held_of_update found with ⟨_, impossible⟩ | ⟨different, found⟩
    · cases impossible
    · refine ⟨?_, reached, found⟩
      rintro rfl
      exact different (custody.single _ _ _ found holds)
  · rintro ⟨different, reached, found⟩
    refine ⟨reached, ?_⟩
    rwa [Function.update_of_ne]
    rintro rfl
    rw [holds] at found
    exact different (Option.some.inj found).symm

omit [DecidableEq A] in
/-- A held object moves into the line. -/
theorem enqueue (custody : Custody held line objects) {holder : S}
    (holds : held holder = some address) :
    Custody (Function.update held holder none) (line ++ [address]) objects where
  allocated_iff other := by
    rw [custody.held_elsewhere holds, custody.allocated_iff, List.mem_append,
      List.mem_singleton]
    by_cases same : other = address
    · subst same
      simp only [or_true, true_or, iff_true]
      exact .inr ⟨holder, holds⟩
    · simp [same]
  distinct := by
    rw [← List.concat_eq_append]
    exact custody.distinct.concat (custody.apart holder address holds)
  apart other reached found member := by
    rcases held_of_update found with ⟨_, impossible⟩ | ⟨different, found⟩
    · cases impossible
    · rcases List.mem_append.mp member with before | last
      · exact custody.apart other reached found before
      · rw [List.mem_singleton.mp last] at found
        exact different (custody.single _ _ _ found holds)
  single first second reached foundFirst foundSecond := by
    rcases held_of_update foundFirst with ⟨_, impossible⟩ | ⟨_, foundFirst⟩
    · cases impossible
    · rcases held_of_update foundSecond with ⟨_, impossible⟩ | ⟨_, foundSecond⟩
      · cases impossible
      · exact custody.single _ _ _ foundFirst foundSecond

/-- A held object is freed. -/
theorem drop (custody : Custody held line objects) {holder : S}
    (holds : held holder = some address) :
    Custody (Function.update held holder none) line
      (Function.update objects address none) where
  allocated_iff other := by
    rw [custody.held_elsewhere holds, Function.update_apply]
    by_cases same : other = address
    · subst same
      simp only [ne_eq, if_true, not_true_eq_false, false_and, or_false, false_iff]
      exact custody.apart holder other holds
    · rw [if_neg same, custody.allocated_iff]
      simp [same]
  distinct := custody.distinct
  apart other reached found := by
    rcases held_of_update found with ⟨_, impossible⟩ | ⟨_, found⟩
    · cases impossible
    · exact custody.apart other reached found
  single first second reached foundFirst foundSecond := by
    rcases held_of_update foundFirst with ⟨_, impossible⟩ | ⟨_, foundFirst⟩
    · cases impossible
    · rcases held_of_update foundSecond with ⟨_, impossible⟩ | ⟨_, foundSecond⟩
      · cases impossible
      · exact custody.single _ _ _ foundFirst foundSecond

omit [DecidableEq S] in
/-- The first object of the line is freed. -/
theorem finish (custody : Custody held (address :: line) objects) :
    Custody held line (Function.update objects address none) where
  allocated_iff other := by
    rw [Function.update_apply]
    by_cases same : other = address
    · subst same
      simp only [ne_eq, if_true, not_true_eq_false, false_iff, not_or, not_exists]
      refine ⟨(List.nodup_cons.mp custody.distinct).1, fun holder holds => ?_⟩
      exact custody.apart holder other holds (List.mem_cons_self ..)
    · rw [if_neg same, custody.allocated_iff]
      simp [same]
  distinct := (List.nodup_cons.mp custody.distinct).2
  apart holder other holds member :=
    custody.apart holder other holds (List.mem_cons_of_mem _ member)
  single := custody.single

end Rules

end Custody

end TellyDB.Lib
