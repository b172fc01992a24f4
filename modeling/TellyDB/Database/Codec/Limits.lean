import TellyDB.Database.Codec.Records

/-!
Owns what does not come back: a value that is not stored comes back as another
one or not at all, whatever its size, its text or the point of its digits.
-/

namespace TellyDB.Database.Codec

open Resp Utils Lib Positional ByteSource FiniteMap File Read HashTable

variable {σ : Type} (source : Source σ UInt8) {limit : Nat}

/-! ## Strings and scalars -/

/-- No string of a larger length is read from anything. -/
theorem collectString_short :
    Gives (collectString source) fun read => read.1.length < stringLimit := by
  refine (Gives.any _).bind fun first _ => ?_
  intro state read final ran
  rw [bind_apply, Option.bind_eq_some_iff] at ran
  rcases ran with ⟨⟨bytes, middle⟩, requested, ran⟩
  rw [bind_apply, Option.bind_eq_some_iff] at ran
  rcases ran with ⟨⟨string, last⟩, requestedString, ran⟩
  cases ran
  have length := source.length_eq requestedString
  have count : bytes.length = (first >>> 6).toNat := source.length_eq requested
  have high : (first >>> 6).toNat ≤ 3 := by
    have small := first.toNat_lt
    rw [UInt8.toNat_shiftRight]
    show first.toNat >>> 6 ≤ 3
    rw [Nat.shiftRight_eq_div_pow]
    omega
  have bounded : ofLittleEndian bytes < 2 ^ 24 := by
    calc ofLittleEndian bytes < 256 ^ bytes.length := ofLittleEndian_lt bytes
      _ ≤ 256 ^ 3 := Nat.pow_le_pow_right (by decide) (by omega)
      _ = 2 ^ 24 := by norm_num
  have shifted : ofLittleEndian bytes * 64 % UInt32.size < 2 ^ 30 :=
    Nat.lt_of_le_of_lt (Nat.mod_le _ _) (by omega)
  have low : (first &&& 0x3f).toNat < 2 ^ 30 := by
    rw [UInt8.toNat_and]
    exact Nat.lt_of_le_of_lt Nat.and_le_right (by decide)
  rw [length]
  exact Nat.or_lt_two_pow shifted low

/-- A value that has a generator and does not come back from what it writes. -/
theorem yields_primitive (enough : stringLimit ≤ limit) {value : Scalar}
    (notStored : ¬ScalarStored value) {bytes : Bytes}
    (generated : generatePrimitive value = some bytes) :
    Yields source limit (collectPrimary source value.type) bytes fun read => read.1 ≠ value := by
  cases value with
  | null => cases generated
  | unknown => cases generated
  | bool boolean => exact absurd trivial notStored
  | int number =>
      apply Gives.yields
      refine Gives.bind (fun state read next ran => collectInteger_small source ran) ?_
      intro read small
      apply Gives.pure
      rintro same
      cases same
      exact notStored small
  | str string =>
      apply Gives.yields
      refine (collectString_short source).bind ?_
      intro read small
      apply Gives.pure
      rintro same
      cases same
      exact notStored small
  | double number =>
      have nonempty : number.digits ≠ [] := by
        intro zero
        rw [show generatePrimitive (.double number) = generateDoubleValue number from rfl,
          generateDoubleValue_zero zero] at generated
        cases generated
      rcases double_cases source enough nonempty with ⟨other, written, -, yields⟩
      have same : other = bytes := Option.some.inj (written.symm.trans generated)
      subst same
      refine (yields notStored).bind_gives_end ?_
      intro read differs
      apply Gives.pure
      rintro same
      cases same
      exact differs rfl

theorem yields_element (enough : stringLimit ≤ limit) {element : Scalar}
    (notStored : ¬ElementStored element) {bytes : Bytes}
    (generated : generateListElement element = some bytes) :
    ∃ rest, bytes = element.type.code :: rest ∧
      Yields source limit (collectPrimary source element.type) rest
        fun read => read.1 ≠ element := by
  have written : isPrimitive element.type = true → ¬ScalarStored element →
      ∃ rest, bytes = element.type.code :: rest ∧
        Yields source limit (collectPrimary source element.type) rest
          fun read => read.1 ≠ element := by
    intro primitive scalarLost
    rw [generateListElement, if_pos primitive, Option.bind_eq_bind,
      Option.bind_eq_some_iff] at generated
    rcases generated with ⟨rest, generatedValue, made⟩
    cases made
    exact ⟨rest, rfl, yields_primitive source enough scalarLost generatedValue⟩
  cases element with
  | null => exact absurd trivial notStored
  | unknown => exact absurd trivial notStored
  | int number => exact written rfl notStored
  | double number => exact written rfl notStored
  | str string => exact written rfl notStored
  | bool boolean => exact written rfl notStored

/-! ## Collections -/

theorem yields_elements (enough : stringLimit ≤ limit) {elements : List Scalar} {bytes : Bytes}
    (generated : generateAll generateListElement elements = some bytes)
    (notStored : ¬∀ element ∈ elements, ElementStored element) (collected : Nat) :
    Yields source limit (collectElements source elements.length collected) bytes
      fun read => read.1 ≠ elements := by
  have limits : stringLimit = 1073741824 := rfl
  induction elements generalizing bytes collected with
  | nil => exact absurd (fun element member => absurd member List.not_mem_nil) notStored
  | cons element rest inductionHypothesis =>
      rw [generateAll_cons, Option.bind_eq_some_iff] at generated
      rcases generated with ⟨first, generatedFirst, generatedRest⟩
      rw [Option.map_eq_some_iff] at generatedRest
      rcases generatedRest with ⟨more, generatedMore, rfl⟩
      rw [List.length_cons]
      by_cases stored : ElementStored element
      · have restLost : ¬∀ element ∈ rest, ElementStored element :=
          fun restStored => notStored (List.forall_mem_cons.mpr ⟨stored, restStored⟩)
        rcases reads_element source enough stored with ⟨payload, again, reads⟩
        rw [generatedFirst, Option.some.injEq] at again
        subst again
        refine Yields.bind_cons (reads_type source (by omega) element.type) ?_
        refine Yields.bind reads ?_
        refine (inductionHypothesis generatedMore restLost _).bind_gives_end ?_
        intro read differs
        apply Gives.pure
        rintro same
        cases same
        exact differs rfl
      · rcases yields_element source enough stored generatedFirst with ⟨payload, rfl, yields⟩
        refine Yields.bind_cons (reads_type source (by omega) element.type) ?_
        refine yields.bind_gives more ?_
        intro read differs
        refine (Gives.any _).bind ?_
        intro others _
        apply Gives.pure
        rintro same
        cases same
        exact differs rfl

/-- What a table keeps while entries are read into it: its own entries, beside which only entries
with short keys appear. -/
structure Extended {V : Type} (table loaded : HashTable Bytes V) : Prop where
  wellFormed : loaded.WellFormed
  keys_eq : loaded.keys = table.keys
  kept : ∀ entry ∈ table.present, entry ∈ loaded.present
  short : ∀ entry ∈ loaded.present, entry ∈ table.present ∨ entry.1.length < stringLimit

section Extension

variable {V : Type} {table middle loaded : HashTable Bytes V}

theorem Extended.refl (wellFormed : table.WellFormed) : Extended table table where
  wellFormed := wellFormed
  keys_eq := rfl
  kept := fun _ member => member
  short := fun _ member => Or.inl member

theorem Extended.trans (first : Extended table middle) (second : Extended middle loaded) :
    Extended table loaded where
  wellFormed := second.wellFormed
  keys_eq := second.keys_eq.trans first.keys_eq
  kept := fun entry member => second.kept entry (first.kept entry member)
  short := by
    intro entry member
    rcases second.short entry member with earlier | short
    · exact first.short entry earlier
    · exact Or.inr short

theorem Extended.insertLoaded (wellFormed : table.WellFormed) {name : Bytes}
    (short : name.length < stringLimit) {value : V}
    (inserted : insertLoaded table name value = some loaded) : Extended table loaded := by
  obtain ⟨after, ran, afterFormed, sameKeys, entered⟩ :=
    wellFormed.insertIntoHashtable_spec name value
  rw [Read.insertLoaded, ran _ (Nat.le_refl _)] at inserted
  cases inserted
  have members : ∀ entry, entry ∈ after.present ↔
      entry ∈ insertIfAbsent table.keys.equality table.present name value :=
    fun entry => entered.mem_iff
  refine ⟨afterFormed, sameKeys, ?_, ?_⟩
  · intro entry member
    rw [members, insertIfAbsent]
    split
    · exact member
    · exact List.mem_cons_of_mem _ member
  · intro entry member
    rw [members, insertIfAbsent] at member
    split at member
    · exact Or.inl member
    · rcases List.mem_cons.mp member with rfl | earlier
      · exact Or.inr short
      · exact Or.inl earlier

/-- Two entries of one table do not share their key. -/
theorem entry_unique (wellFormed : table.WellFormed) (keys_eq : table.keys = stringKeys)
    {name : Bytes} {first second : V} (isFirst : (name, first) ∈ table.present)
    (isSecond : (name, second) ∈ table.present) : first = second := by
  have distinct := wellFormed.distinct
  rw [keys_eq] at distinct
  have same : stringKeys.equality.same name name = true := stringKeys.equality.refl name
  have foundFirst := distinct.find_eq_some_iff.mpr ⟨isFirst, same⟩
  have foundSecond := distinct.find_eq_some_iff.mpr ⟨isSecond, same⟩
  rw [foundFirst, Option.some.injEq, Prod.mk.injEq] at foundSecond
  exact foundSecond.2

/-- The key of an entry is none of those that came before it. -/
theorem absent_of_distinct {name : Bytes} {value : V} {rest : List (Bytes × V)}
    (distinct : Distinct stringKeys.equality ((name, value) :: rest ++ table.present))
    (other : V) : (name, other) ∉ table.present := by
  intro member
  have apart := (List.pairwise_cons.mp distinct).1 _ (List.mem_append_right rest member)
  rw [stringKeys.equality.refl name] at apart
  cases apart

theorem find_none_of_distinct (keys_eq : table.keys = stringKeys) {name : Bytes} {value : V}
    {rest : List (Bytes × V)}
    (distinct : Distinct stringKeys.equality ((name, value) :: rest ++ table.present)) :
    find table.keys.equality table.present name = none := by
  rw [find_eq_none_iff, keys_eq]
  intro entry member
  rw [KeyEquality.same_comm]
  exact (List.pairwise_cons.mp distinct).1 entry (List.mem_append_right _ member)

/-- The entries to come are apart from the one that has come, whatever its value. -/
theorem distinct_entered {name : Bytes} {value other : V} {rest : List (Bytes × V)}
    (distinct : Distinct stringKeys.equality ((name, value) :: rest ++ table.present))
    (entered : loaded.present.Perm ((name, other) :: table.present)) :
    Distinct stringKeys.equality (rest ++ loaded.present) := by
  have moved : ((name, other) :: (rest ++ table.present)).Perm (rest ++ loaded.present) :=
    ((entered.append_left rest).trans List.perm_middle).symm
  refine Distinct.perm ?_ moved
  exact List.pairwise_cons.mpr (List.pairwise_cons.mp distinct)

end Extension

theorem collectFields_extended {table : HashTable Bytes Scalar} (wellFormed : table.WellFormed)
    (turns collected : Nat) :
    Gives (collectFields source turns table collected) fun read => Extended table read.1 := by
  induction turns generalizing table collected with
  | zero => exact Gives.none
  | succ turns inductionHypothesis =>
      rw [collectFields]
      refine (Gives.any _).bind ?_
      intro byte _
      split
      · exact Gives.pure (Extended.refl wellFormed)
      · refine (collectString_short source).bind ?_
        rintro ⟨name, length⟩ short
        refine Gives.bind_lift ?_
        intro type _
        refine (Gives.any _).bind ?_
        rintro ⟨value, valueLength⟩ _
        refine Gives.bind_lift ?_
        intro after inserted
        have extended := Extended.insertLoaded wellFormed short inserted
        intro state read next ran
        exact extended.trans (inductionHypothesis extended.wellFormed _ state read next ran)

/-- A field that is not stored is missing from the table that is read. -/
theorem yields_fields (enough : stringLimit ≤ limit) {fields : List (Bytes × Scalar)}
    {table : HashTable Bytes Scalar} (wellFormed : table.WellFormed)
    (keys_eq : table.keys = stringKeys)
    (distinct : Distinct stringKeys.equality (fields ++ table.present)) {bytes : Bytes}
    (generated : generateAll generateHashtableElement fields = some bytes)
    (notStored : ¬∀ field ∈ fields, FieldStored field) (turns collected : Nat) :
    Yields source limit (collectFields source turns table collected) (bytes ++ [0x17])
      fun read => ∃ field ∈ fields, field ∉ read.1.present := by
  have limits : stringLimit = 1073741824 := rfl
  induction fields generalizing table bytes turns collected with
  | nil => exact absurd (fun field member => absurd member List.not_mem_nil) notStored
  | cons field rest inductionHypothesis =>
      rcases field with ⟨name, value⟩
      have absent := absent_of_distinct distinct
      by_cases short : name.length < stringLimit
      · rw [generateAll_cons, Option.bind_eq_some_iff] at generated
        rcases generated with ⟨first, generatedFirst, generatedRest⟩
        rw [Option.map_eq_some_iff] at generatedRest
        rcases generatedRest with ⟨more, generatedMore, rfl⟩
        rw [generateHashtableElement, Option.bind_eq_bind, Option.bind_eq_some_iff]
          at generatedFirst
        rcases generatedFirst with ⟨payload, generatedValue, made⟩
        cases made
        cases turns with
        | zero => exact Gives.none.yields _
        | succ turns =>
            rw [List.append_assoc, List.append_assoc, collectFields]
            refine Yields.bind_cons (reads_byte source (by omega) value.type.code) ?_
            rw [if_neg (code_ne_end _)]
            refine Yields.bind (reads_string source enough short) ?_
            refine Yields.bind_lift (TellyType.ofCode_code _) ?_
            have absent_find := find_none_of_distinct keys_eq distinct
            by_cases stored : ScalarStored value
            · have restLost : ¬∀ field ∈ rest, FieldStored field := fun restStored =>
                notStored (List.forall_mem_cons.mpr ⟨⟨short, stored⟩, restStored⟩)
              rcases reads_primitive source enough stored with ⟨again, generatedAgain, reads⟩
              rw [generatedValue, Option.some.injEq] at generatedAgain
              subst generatedAgain
              refine Yields.bind reads ?_
              rcases insertLoaded_absent wellFormed absent_find value with
                ⟨after, inserted, afterFormed, sameKeys, entered, -⟩
              refine Yields.bind_lift inserted ?_
              have restDistinct := distinct_entered distinct entered
              have later := inductionHypothesis afterFormed (sameKeys.trans keys_eq) restDistinct
                generatedMore restLost turns
                  (collected + (generateStringValue name).length + 1 + payload.length)
              intro state following read next delivers ran
              rcases later state following read next delivers ran with ⟨missing, member, lost⟩
              exact ⟨missing, List.mem_cons_of_mem _ member, lost⟩
            · refine (yields_primitive source enough stored generatedValue).bind_gives _ ?_
              rintro ⟨other, length⟩ differs
              refine Gives.bind_lift ?_
              intro after inserted
              rcases insertLoaded_absent wellFormed absent_find other with
                ⟨reached, again, afterFormed, sameKeys, entered, -⟩
              rw [inserted, Option.some.injEq] at again
              subst again
              intro state read next ran
              have extended := collectFields_extended source afterFormed _ _ state read next ran
              refine ⟨(name, value), List.mem_cons_self, fun present => ?_⟩
              have held : (name, other) ∈ read.1.present :=
                extended.kept _ (entered.mem_iff.mpr List.mem_cons_self)
              exact differs (entry_unique extended.wellFormed
                (extended.keys_eq.trans (sameKeys.trans keys_eq)) held present)
      · -- No name of this length is ever read.
        intro state following read next _ ran
        have extended := collectFields_extended source wellFormed _ _ state read next ran
        refine ⟨(name, value), List.mem_cons_self, fun present => ?_⟩
        rcases extended.short _ present with earlier | small
        · exact absent value earlier
        · exact short small

end TellyDB.Database.Codec
