import TellyDB.Commands.Data.Lists
import TellyDB.Commands.Data.Tables
import TellyDB.Commands.ListCommands.Integrity
import TellyDB.Commands.Numerals

/-!
Owns what `LRANGE` collects. The slice of a list between two indexes is stated over the
integers that the arguments denote, and the walk of `collect_values` is compared with it, over
the elements of the list and over its nodes.
-/

namespace TellyDB.Commands.Data

open Resp Server Database.Keyspace
open TellyDB.Database (Scalar Table)
open Lib.LinkedSegment (Memory)

/-! ## Slices -/

section Slices

variable {α : Type}

/-- The position that an index means among `size` elements. -/
def position (size : Nat) (index : Int) : Int := if index < 0 then size + index else index

/-- The position of an end, which becomes the last one where it lies beyond the list. -/
def lastPosition (size : Nat) (index : Int) : Int := min (position size index) (size - 1)

/-- The start lies in the list, and the end not before it. -/
def InBounds (size : Nat) (start stop : Int) : Prop :=
  0 ≤ position size start ∧ position size start < size ∧
    position size start ≤ lastPosition size stop

instance (size : Nat) (start stop : Int) : Decidable (InBounds size start stop) :=
  inferInstanceAs (Decidable (_ ∧ _ ∧ _))

/-- How many elements lie from `start` to `stop`. -/
def sliceCount (size : Nat) (start stop : Int) : Nat :=
  (lastPosition size stop - position size start + 1).toNat

/-- The elements from `start` to `stop`. -/
def slice (elements : List α) (start stop : Int) : List α :=
  if InBounds elements.length start stop then
    (elements.drop (position elements.length start).toNat).take
      (sliceCount elements.length start stop)
  else []

theorem slice_of_inBounds (elements : List α) {start stop : Int}
    (inside : InBounds elements.length start stop) :
    slice elements start stop = (elements.drop (position elements.length start).toNat).take
      (sliceCount elements.length start stop) := if_pos inside

theorem mem_of_mem_slice {elements : List α} {start stop : Int} {element : α}
    (member : element ∈ slice elements start stop) : element ∈ elements := by
  rw [slice] at member
  split at member
  · exact List.mem_of_mem_drop (List.mem_of_mem_take member)
  · cases member

/-- The slice is empty exactly when the start is out of bounds or behind the end. -/
theorem slice_eq_nil_iff (elements : List α) (start stop : Int) :
    slice elements start stop = [] ↔ ¬InBounds elements.length start stop := by
  rw [slice]
  split
  · rename_i inside
    refine iff_of_false (fun none_ => ?_) (fun outside => outside inside)
    obtain ⟨low, high, ordered⟩ := inside
    have lengths := congrArg List.length none_
    rw [List.length_take, List.length_drop, List.length_nil, sliceCount] at lengths
    omega
  · rename_i outside
    exact iff_of_true rfl outside

/-- As many elements, read backwards from the node that lies as far from the front as `stop` from
the end. -/
def mirrored (elements : List α) (start stop : Int) : List α :=
  (elements.drop (elements.length - (lastPosition elements.length stop).toNat -
    sliceCount elements.length start stop)).take (sliceCount elements.length start stop)

end Slices

/-! ## Indexes -/

/-- What `normalize_index` makes of the number that its argument denotes. -/
def normalized (size : Nat) (index : Int) : Nat :=
  if index < 0 then if (size : Int) ≤ -index then size else (size + index).toNat
  else if (size : Int) ≤ index then size - 1 else index.toNat

theorem atoullS_bounded (string : Bytes) (value : Nat) (size : Nat) (small : size ≤ uint64Max)
    (read : atoullS string = if value ≤ uint64Max then (value, .zero) else (uint64Max, .erange)) :
    ((atoullS string).1 ≥ size ↔ size ≤ value) ∧
      ((atoullS string).1 < size → (atoullS string).1 = value) := by
  rw [read]
  split
  · exact ⟨Iff.rfl, fun _ => rfl⟩
  · dsimp only
    omega

theorem normalizeIndex_eq {bytes : Bytes} (integer : IsInteger bytes) {size : Nat}
    (small : size ≤ uint64Max) : normalizeIndex size bytes = normalized size (integerValue bytes) := by
  cases integer with
  | digits nonempty all =>
      obtain ⟨beyond, within⟩ := atoullS_bounded bytes _ size small (atoullS_digits nonempty all)
      have positive := all.head_ne_minus
      have value : integerValue bytes = decimalValue bytes := integerValue_digits all
      have sign : ¬(decimalValue bytes : Int) < 0 := by omega
      rw [normalizeIndex, if_neg positive, value, normalized, if_neg sign]
      dsimp only
      split_ifs <;> omega
  | @minus digits nonempty all leading =>
      obtain ⟨beyond, within⟩ :=
        atoullS_bounded (0x2b :: digits) _ size small (atoullS_plus nonempty all)
      have value : integerValue (0x2d :: digits) = -decimalValue digits := rfl
      have positive := decimalValue_pos nonempty all leading
      have sign : -(decimalValue digits : Int) < 0 := by omega
      rw [normalizeIndex, List.head?_cons, if_pos rfl, value, normalized, if_pos sign,
        List.tail_cons]
      dsimp only
      split_ifs <;> omega

theorem normalizeIndex_le (size : Nat) (string : Bytes) : normalizeIndex size string ≤ size := by
  rw [normalizeIndex]
  dsimp only
  split_ifs <;> omega

/-! ## The walk -/

/-- The values that `LRANGE` collects between two normalized indexes. -/
def collected (list : ListValue) (start stop : Nat) : Option (List Scalar) :=
  if list.size = 0 ∨ start ≥ list.size ∨ stop ≤ start ∨ stop = list.size then some []
  else collectValues list (stop - start + 1) start stop

/-- If there is a slice, it does not start at `-size`, has two elements or more, and lies so that
`collect_values` walks forwards, or a backward walk of that length stays in the list and finds the
same elements. -/
def SliceReached (elements : List Scalar) (start stop : Int) : Prop :=
  InBounds elements.length start stop →
    start ≠ -elements.length ∧
      position elements.length start < lastPosition elements.length stop ∧
      (position elements.length start ≤ elements.length - lastPosition elements.length stop ∨
        sliceCount elements.length start stop ≤ elements.length - lastPosition elements.length stop ∧
          mirrored elements start stop = slice elements start stop)

instance (elements : List Scalar) (start stop : Int) : Decidable (SliceReached elements start stop) :=
  inferInstanceAs (Decidable (_ → _))

section Walk

variable {size : Nat} {start stop : Int}

theorem normalized_start (inside : InBounds size start stop) (other : start ≠ -size) :
    normalized size start = (position size start).toNat := by
  obtain ⟨low, high, ordered⟩ := inside
  rw [position] at low high ⊢
  rw [normalized]
  split_ifs at low high ⊢ <;> omega

theorem normalized_stop (inside : InBounds size start stop)
    (several : position size start < lastPosition size stop) :
    normalized size stop = (lastPosition size stop).toNat := by
  obtain ⟨low, high, ordered⟩ := inside
  have positive : 0 < lastPosition size stop := by omega
  rw [lastPosition, position] at positive ⊢
  rw [normalized]
  split_ifs at positive ⊢ <;> omega

/-- Between such indexes there is a slice. -/
theorem inBounds_of_normalized (before : normalized size start < normalized size stop)
    (below : normalized size stop < size) : InBounds size start stop := by
  rw [InBounds, lastPosition, position, position]
  rw [normalized, normalized] at before
  rw [normalized] at below
  split_ifs at before below ⊢ <;> omega

/-- A slice of one element is taken for none. -/
theorem normalized_single (inside : InBounds size start stop)
    (single : ¬position size start < lastPosition size stop) :
    normalized size stop ≤ normalized size start ∨ normalized size stop = size := by
  obtain ⟨low, high, ordered⟩ := inside
  rw [lastPosition, position, position] at single
  rw [position] at low high
  rw [normalized, normalized]
  split_ifs at low high single ⊢ <;> omega

theorem normalized_neg_size (size : Nat) : normalized size (-size) = size ∨ size = 0 := by
  rw [normalized]
  split_ifs <;> omega

theorem normalized_le (size : Nat) (index : Int) : normalized size index ≤ size := by
  rw [normalized]
  split_ifs <;> omega

end Walk

/-- The walk yields the slice exactly when it reaches it. -/
theorem collected_eq_slice_iff (list : ListValue) (start stop : Int) :
    collected list (normalized list.size start) (normalized list.size stop) =
        some (slice list.elements start stop) ↔ SliceReached list.elements start stop := by
  have size_eq : list.size = list.elements.length := rfl
  rw [SliceReached, ← size_eq]
  by_cases inside : InBounds list.size start stop
  · have some_ : slice list.elements start stop ≠ [] := by
      rw [Ne, slice_eq_nil_iff, ← size_eq]
      exact fun outside => outside inside
    have nothing : ¬some [] = some (slice list.elements start stop) :=
      fun same => some_ (Option.some.inj same).symm
    rw [collected]
    by_cases other : start = -list.size
    · rcases normalized_neg_size list.size with whole | empty
      · rw [other, whole, if_pos (.inr (.inl (Nat.le_refl _)))]
        rw [other] at nothing
        exact iff_of_false nothing fun reached => (reached (other ▸ inside)).1 rfl
      · rw [if_pos (.inl empty)]
        exact iff_of_false nothing fun reached => (reached inside).1 other
    · by_cases several : position list.size start < lastPosition list.size stop
      · have startAt := normalized_start inside other
        have stopAt := normalized_stop inside several
        have last : lastPosition list.size stop ≤ list.size - 1 := min_le_right _ _
        obtain ⟨low, high, _⟩ := id inside
        have count : normalized list.size stop - normalized list.size start + 1 =
            sliceCount list.size start stop := by
          rw [startAt, stopAt, sliceCount]
          omega
        have walks : ¬(list.size = 0 ∨ normalized list.size start ≥ list.size ∨
            normalized list.size stop ≤ normalized list.size start ∨
            normalized list.size stop = list.size) := by
          rw [startAt, stopAt]
          omega
        rw [if_neg walks, count, startAt, stopAt, collectValues, imp_iff_right inside,
          and_iff_right other, and_iff_right several]
        by_cases forward : position list.size start ≤ list.size - lastPosition list.size stop
        · rw [if_pos (by omega), slice_of_inBounds list.elements inside]
          exact iff_of_true rfl (.inl forward)
        · rw [if_neg (by omega), or_iff_right forward]
          by_cases enough : sliceCount list.size start stop ≤
              list.size - lastPosition list.size stop
          · rw [if_pos (by omega), and_iff_right enough, Option.some_inj]
            rfl
          · rw [if_neg (by omega)]
            exact iff_of_false (Option.some_ne_none _).symm fun reached => enough reached.1
      · have refused : list.size = 0 ∨ normalized list.size start ≥ list.size ∨
            normalized list.size stop ≤ normalized list.size start ∨
            normalized list.size stop = list.size :=
          .inr (.inr (normalized_single inside several))
        rw [if_pos refused]
        exact iff_of_false nothing fun reached => several (reached inside).2.1
  · have none_ : slice list.elements start stop = [] := (slice_eq_nil_iff ..).mpr inside
    have refused : list.size = 0 ∨ normalized list.size start ≥ list.size ∨
        normalized list.size stop ≤ normalized list.size start ∨
        normalized list.size stop = list.size := by
      by_contra walks
      push Not at walks
      obtain ⟨_, low, before, below⟩ := walks
      have within := normalized_le list.size stop
      exact inside (inBounds_of_normalized before (by omega))
    rw [collected, if_pos refused, none_]
    exact iff_of_true rfl fun within => absurd within inside

/-! ## Over the nodes -/

/-- The index that `normalize_index` reads. -/
def indexLiteral (string : Bytes) : IndexLiteral :=
  if string.head? = some 0x2d then ⟨true, (atoullS (0x2b :: string.tail)).1⟩
  else ⟨false, (atoullS string).1⟩

theorem normalizeIndex_literal (size : Nat) (string : Bytes) :
    ListKey.normalizeIndex size (indexLiteral string) = normalizeIndex size string := by
  rw [ListKey.normalizeIndex, indexLiteral, normalizeIndex]
  by_cases minus : string.head? = some 0x2d
  · simp [minus]
  · simp [minus]

/-- The values are what the walk over the nodes reads, and are missing where it leaves them. -/
theorem lrange_nodes {memory : Memory Scalar} {linked : Utils.LinkedList}
    {nodes : List (Nat × Scalar)} (links : linked.Linked memory nodes) {list : ListValue}
    (elements : nodes.map Prod.snd = list.elements) (start stop : Bytes) :
    ListKey.lrange ⟨memory, some linked⟩ (indexLiteral start) (indexLiteral stop) =
      collected list (normalizeIndex list.size start) (normalizeIndex list.size stop) := by
  have size_eq : linked.size = list.size := by
    rw [links.size_eq, ListValue.size, ← elements, List.length_map]
  rw [ListKey.lrange, collected]
  simp only [size_eq, normalizeIndex_literal]
  by_cases empty : list.size = 0
  · rw [if_pos empty, if_pos (.inl empty)]
  · rw [if_neg empty]
    by_cases refused : normalizeIndex list.size start ≥ list.size ∨
        normalizeIndex list.size stop ≤ normalizeIndex list.size start ∨
        normalizeIndex list.size stop = list.size
    · rw [if_pos refused, if_pos (.inr refused)]
    · have within := normalizeIndex_le list.size stop
      have walks : ¬(list.size = 0 ∨ _) := not_or.mpr ⟨empty, refused⟩
      rw [if_neg refused, if_neg walks, collectValues,
        ListKey.collectValues_linked links (by omega) (by omega), size_eq, elements]

/-! ## The reply -/

/-- A list as it stands in memory: its size is a `uint64_t`, and every value has a type. -/
structure WellFormed (list : ListValue) : Prop where
  size_le : list.size ≤ uint64Max
  known : ∀ value ∈ list.elements, value ≠ .unknown

theorem writeScalar_isSome {value : Scalar} (known : value ≠ .unknown) :
    ∃ element, writeScalar value = some element := by
  cases value with
  | unknown => exact absurd rfl known
  | null | int | double | str | bool => exact ⟨_, rfl⟩

/-- No two values are written alike. -/
theorem writeScalar_injective :
    Relator.LeftUnique fun value element => writeScalar value = some element := by
  intro value other element first second
  cases value with
  | unknown => cases first
  | null | int | double | str | bool =>
      have same := first.trans second.symm
      cases other <;> simp [writeScalar] at same ⊢ <;> exact same

theorem mapM_writeScalar {values : List Scalar} (known : ∀ value ∈ values, value ≠ .unknown) :
    ∃ elements, values.mapM writeScalar = some elements ∧ elements.length = values.length := by
  induction values with
  | nil => exact ⟨[], rfl, rfl⟩
  | cons value rest inductionHypothesis =>
      obtain ⟨element, written⟩ := writeScalar_isSome (known value (List.mem_cons_self ..))
      obtain ⟨elements, later, length⟩ := inductionHypothesis fun other member =>
        known other (List.mem_cons_of_mem _ member)
      refine ⟨element :: elements, ?_, congrArg Nat.succ length⟩
      rw [List.mapM_cons, written, later]
      rfl

theorem forall₂_of_mapM {α β : Type} {function : α → Option β} {inputs : List α}
    {results : List β} (mapped : inputs.mapM function = some results) :
    List.Forall₂ (fun input result => function input = some result) inputs results := by
  induction inputs generalizing results with
  | nil =>
      cases Option.some.inj mapped
      exact .nil
  | cons input rest inductionHypothesis =>
      simp only [List.mapM_cons, Option.bind_eq_bind, Option.bind_eq_some_iff, Option.pure_def,
        Option.some_inj] at mapped
      obtain ⟨result, here, later, mappedLater, rfl⟩ := mapped
      exact .cons here (inductionHypothesis mappedLater)

/-- `write_value` writes the value, and does not return a constant. -/
def Copied (value : Scalar) : Prop :=
  match value with
  | .null | .bool _ => False
  | _ => True

instance : DecidablePred Copied := fun value => by
  cases value <;> unfold Copied <;> infer_instance

/-- What lies in place of a value is the value exactly where it is copied. -/
theorem elementInPlace_eq_iff {value other : Scalar} {element : Element}
    (written : writeScalar other = some element) :
    elementInPlace value = some element ↔ value = other ∧ Copied value := by
  have notStale : element ≠ .stale := by
    rintro rfl
    cases other <;> cases written
  have injective : writeScalar value = some element ↔ value = other :=
    ⟨fun same => writeScalar_injective same written, fun same => same ▸ written⟩
  cases value with
  | null | bool =>
      refine iff_of_false (fun same => notStale (Option.some.inj same).symm) fun same => same.2
  | unknown | int | double | str => exact injective.trans (and_iff_left trivial).symm

theorem mapM_cons_eq_some {α β : Type} {function : α → Option β} {input : α} {inputs : List α}
    {result : β} {results : List β} :
    (input :: inputs).mapM function = some (result :: results) ↔
      function input = some result ∧ inputs.mapM function = some results := by
  simp only [List.mapM_cons, Option.bind_eq_bind, Option.bind_eq_some_iff, Option.pure_def,
    Option.some_inj, List.cons_eq_cons]
  constructor
  · rintro ⟨_, here, _, later, rfl, rfl⟩
    exact ⟨here, later⟩
  · rintro ⟨here, later⟩
    exact ⟨result, here, results, later, rfl, rfl⟩

theorem mapM_elementInPlace_iff {values others : List Scalar} {elements : List Element}
    (written : others.mapM writeScalar = some elements) :
    values.mapM elementInPlace = some elements ↔
      values = others ∧ ∀ value ∈ values, Copied value := by
  have lengths : ∀ {function : Scalar → Option Element} {inputs : List Scalar},
      inputs.mapM function = some elements → inputs.length = elements.length :=
    fun mapped => (forall₂_of_mapM mapped).length_eq
  induction others generalizing values elements with
  | nil =>
      cases Option.some.inj written
      cases values with
      | nil => exact iff_of_true rfl ⟨rfl, List.forall_mem_nil _⟩
      | cons value rest =>
          exact iff_of_false (fun mapped => absurd (lengths mapped) (Nat.succ_ne_zero _))
            fun same => List.cons_ne_nil _ _ same.1
  | cons other others inductionHypothesis =>
      cases elements with
      | nil => exact absurd (lengths written) (Nat.succ_ne_zero _)
      | cons element elements =>
          obtain ⟨here, later⟩ := mapM_cons_eq_some.mp written
          cases values with
          | nil =>
              exact iff_of_false (fun mapped => absurd (lengths mapped).symm (Nat.succ_ne_zero _))
                fun same => List.cons_ne_nil _ _ same.1.symm
          | cons value rest =>
              have tails : rest.mapM elementInPlace = some elements ↔
                  rest = others ∧ ∀ value ∈ rest, Copied value :=
                inductionHypothesis later fun mapped => (forall₂_of_mapM mapped).length_eq
              rw [mapM_cons_eq_some, elementInPlace_eq_iff here, tails, List.cons_eq_cons,
                List.forall_mem_cons]
              exact and_and_and_comm

theorem collectValues_length {list : ListValue} {count start stop : Nat} {values : List Scalar}
    (within : start + count ≤ list.size)
    (walked : collectValues list count start stop = some values) : values.length = count := by
  rw [ListValue.size] at within
  rw [collectValues, ListValue.size] at walked
  split at walked
  · cases walked
    rw [List.length_take, List.length_drop]
    omega
  · split at walked
    · cases walked
      rw [List.length_take, List.length_drop]
      omega
    · cases walked

/-- `LRANGE` of a key that holds the list replies with the values it collects. -/
theorem runLrange_collected {entry : Entry} {data : Data} {key start stop : Argument}
    {kv : KeyValue} {list : ListValue} (connected : entry.client ≠ none)
    (args : entry.args = [key, start, stop]) (found : getData data key.bytes = some kv)
    (holds : kv.value = .list list) (startInteger : tryParseInteger start = true)
    (stopInteger : tryParseInteger stop = true) :
    runLrange entry data =
      (collected list (normalizeIndex list.size start.bytes)
        (normalizeIndex list.size stop.bytes)).bind fun values =>
          (values.mapM elementInPlace).map fun elements =>
            (data, .array values.length elements) := by
  obtain ⟨protocol, client⟩ := Option.ne_none_iff_exists'.mp connected
  rw [runLrange, reading, client, args]
  simp only [startInteger, stopInteger, found, holds, Bool.not_true, Bool.false_eq_true,
    ↓reduceIte]
  rw [collected]
  split
  · rfl
  · rename_i walks
    push Not at walks
    have within := normalizeIndex_le list.size stop.bytes
    cases walked : collectValues list (normalizeIndex list.size stop.bytes -
        normalizeIndex list.size start.bytes + 1) (normalizeIndex list.size start.bytes)
        (normalizeIndex list.size stop.bytes) with
    | none => rfl
    | some values =>
        have length := collectValues_length (by omega) walked
        simp only [Option.bind_eq_bind, Option.bind_some, length]
        cases values.mapM elementInPlace <;> rfl

end TellyDB.Commands.Data
