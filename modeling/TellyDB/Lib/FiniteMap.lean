import Mathlib.Data.List.Perm.Basic

/-!
Owns finite maps as lists of entries whose keys are pairwise different under a
given key equality: lookup, insertion of absent keys and removal, and that
none of them depends on the order of the list.
-/

namespace TellyDB.Lib.FiniteMap

variable {K V : Type*}

/-- A decidable equality of keys that need not be the identity. -/
structure KeyEquality (K : Type*) where
  same : K → K → Bool
  refl : ∀ key, same key key = true
  symm : ∀ {left right}, same left right = true → same right left = true
  trans : ∀ {left middle right}, same left middle = true → same middle right = true →
    same left right = true

variable (equality : KeyEquality K)

/-- The entry under `key`. -/
def find (entries : List (K × V)) (key : K) : Option (K × V) :=
  entries.find? fun entry => equality.same entry.1 key

/-- Add an entry unless its key is present. -/
def insertIfAbsent (entries : List (K × V)) (key : K) (value : V) : List (K × V) :=
  match find equality entries key with
  | some _ => entries
  | none => (key, value) :: entries

/-- Remove the entry under `key`. -/
def erase (entries : List (K × V)) (key : K) : List (K × V) :=
  entries.filter fun entry => !equality.same entry.1 key

/-- No two entries have the same key. -/
def Distinct (entries : List (K × V)) : Prop :=
  entries.Pairwise fun left right => equality.same left.1 right.1 = false

variable {equality}

theorem KeyEquality.same_comm (left right : K) :
    equality.same left right = equality.same right left := by
  rw [Bool.eq_iff_iff]
  exact ⟨equality.symm, equality.symm⟩

theorem Distinct.perm {left right : List (K × V)} (distinct : Distinct equality left)
    (permutation : left.Perm right) : Distinct equality right :=
  (permutation.pairwise_iff fun {first second} different => by
    rw [KeyEquality.same_comm]; exact different).mp distinct

/-- In a distinct list the entry under a key is the only one. -/
theorem Distinct.find_eq_some_iff {entries : List (K × V)}
    (distinct : Distinct equality entries) {key : K} {entry : K × V} :
    find equality entries key = some entry ↔
      entry ∈ entries ∧ equality.same entry.1 key = true := by
  induction entries with
  | nil => simp [find]
  | cons head tail inductionHypothesis =>
      obtain ⟨apart, tailDistinct⟩ := List.pairwise_cons.mp distinct
      cases hit : equality.same head.1 key with
      | true =>
          have found : find equality (head :: tail) key = some head := by
            simp [find, hit]
          rw [found, Option.some.injEq]
          constructor
          · rintro rfl
            exact ⟨List.mem_cons_self, hit⟩
          · rintro ⟨member, equal⟩
            rcases List.mem_cons.mp member with rfl | member
            · rfl
            · have clash := equality.trans hit (equality.symm equal)
              rw [apart entry member] at clash
              cases clash
      | false =>
          have skipped : find equality (head :: tail) key = find equality tail key := by
            simp [find, hit]
          rw [skipped, inductionHypothesis tailDistinct]
          constructor
          · rintro ⟨member, equal⟩
            exact ⟨List.mem_cons_of_mem head member, equal⟩
          · rintro ⟨member, equal⟩
            rcases List.mem_cons.mp member with rfl | member
            · rw [hit] at equal
              cases equal
            · exact ⟨member, equal⟩

theorem find_eq_none_iff {entries : List (K × V)} {key : K} :
    find equality entries key = none ↔
      ∀ entry ∈ entries, equality.same entry.1 key = false := by
  simp [find]

/-- Lookup does not depend on the order of the entries. -/
theorem Distinct.find_perm {left right : List (K × V)} (distinct : Distinct equality left)
    (permutation : left.Perm right) (key : K) :
    find equality left key = find equality right key := by
  have rightDistinct := distinct.perm permutation
  apply Option.ext
  intro entry
  rw [distinct.find_eq_some_iff, rightDistinct.find_eq_some_iff, permutation.mem_iff]

theorem Distinct.insertIfAbsent {entries : List (K × V)} (distinct : Distinct equality entries)
    (key : K) (value : V) : Distinct equality (insertIfAbsent equality entries key value) := by
  unfold FiniteMap.insertIfAbsent
  split
  · exact distinct
  · rename_i absent
    refine List.pairwise_cons.mpr ⟨?_, distinct⟩
    intro entry member
    rw [KeyEquality.same_comm]
    exact find_eq_none_iff.mp absent entry member

theorem Distinct.erase {entries : List (K × V)} (distinct : Distinct equality entries)
    (key : K) : Distinct equality (erase equality entries key) :=
  distinct.filter _

theorem erase_perm (equality : KeyEquality K) {left right : List (K × V)}
    (permutation : left.Perm right) (key : K) :
    (erase equality left key).Perm (erase equality right key) :=
  permutation.filter _

theorem erase_eq_self {entries : List (K × V)} {key : K}
    (absent : find equality entries key = none) : erase equality entries key = entries := by
  rw [find_eq_none_iff] at absent
  apply List.filter_eq_self.mpr
  intro entry member
  simp [absent entry member]

/-- Erasing the key of the first entry of a distinct list leaves the rest. -/
theorem Distinct.erase_cons {entry : K × V} {rest : List (K × V)} {key : K}
    (distinct : Distinct equality (entry :: rest))
    (hit : equality.same entry.1 key = true) :
    FiniteMap.erase equality (entry :: rest) key = rest := by
  obtain ⟨apart, -⟩ := List.pairwise_cons.mp distinct
  have others : find equality rest key = none := by
    rw [find_eq_none_iff]
    intro other member
    cases clash : equality.same other.1 key with
    | false => rfl
    | true =>
        have equal := equality.trans hit (equality.symm clash)
        rw [apart other member] at equal
        cases equal
  have kept := erase_eq_self others
  simpa [FiniteMap.erase, hit] using kept

end TellyDB.Lib.FiniteMap
