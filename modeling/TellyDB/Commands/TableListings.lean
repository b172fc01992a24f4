import TellyDB.Commands.TableReplies

/-!
Owns the agreement of the listings of a hash table: as long as `grow_hashtable` gets
cleared arrays, HSET and HDEL only leave tables whose count is the number of their fields,
and HGETALL, HKEYS, HVALS, HLEN and HGET agree on them.
-/

namespace TellyDB.Commands

open Resp Lib.Writers Utils Utils.HashTable Lib FiniteMap
open Database (Scalar Table stringKeys)
open Server (ProtocolVersion maxResponseSize)

/-! ## What a listing counts -/

section Texts

variable {limit : Nat} {table : FieldTable} {buf : Bytes}

theorem listing_eq {header : Writer UInt8} {text : Bytes}
    {procedure : HashTableElement Bytes Scalar → Writer UInt8}
    {parts : HashTableElement Bytes Scalar → Bytes} (heads : Writes limit 0 header text)
    (writes : ∀ element ∈ table.present, Writes limit 0 (procedure element) (parts element))
    (room : text.length + (table.present.flatMap parts).length ≤ buf.length)
    (small : buf.length ≤ limit) :
    listing header procedure table buf = some (text ++ table.present.flatMap parts) := by
  rcases heads buf (by omega) small with ⟨rest, headed, total⟩
  rcases Filled.foldl ⟨rest, rfl, total⟩ writes room small with ⟨after, folded, filled⟩
  rw [listing, foreachHashtable_eq, headed, folded, Option.bind_eq_bind, Option.bind_some]
  exact congrArg some filled.take

/-- A longer number has no fewer digits. -/
theorem length_decimal_mono {small large : Nat} (le : small ≤ large) :
    (decimal small).length ≤ (decimal large).length := by
  have some := List.length_pos_of_ne_nil (decimal_ne_nil large)
  have bound := (length_decimal_le_iff some).mp (Nat.le_refl (decimal large).length)
  exact (length_decimal_le_iff some).mpr (Nat.lt_of_le_of_lt le bound)

theorem length_respArray (elements : List Bytes) :
    (respArray elements).length =
      1 + (decimal elements.length).length + 2 + elements.flatten.length := by
  rw [respArray, List.length_append, List.length_append, List.length_append]
  rfl

theorem flatten_pairs (pairs : List (Bytes × Bytes)) :
    (pairs.flatMap fun pair => [pair.1, pair.2]).flatten =
      pairs.flatMap fun pair => pair.1 ++ pair.2 := by
  induction pairs with
  | nil => rfl
  | cons pair rest inductionHypothesis =>
      simp [inductionHypothesis]

theorem length_pairs (pairs : List (Bytes × Bytes)) :
    (pairs.flatMap fun pair => [pair.1, pair.2]).length = pairs.length * 2 := by
  induction pairs with
  | nil => rfl
  | cons pair rest inductionHypothesis =>
      simp only [List.flatMap_cons, List.length_append, inductionHypothesis, List.length_cons,
        List.length_nil]
      omega

/-- The two parts of the pairs are no longer than the pairs, and no part is empty. -/
theorem length_flatMap_pairs (pairs : List (Bytes × Bytes)) :
    (pairs.flatMap fun pair => pair.1 ++ pair.2).length =
      (pairs.map Prod.fst).flatten.length + (pairs.map Prod.snd).flatten.length := by
  induction pairs with
  | nil => rfl
  | cons pair rest inductionHypothesis =>
      simp only [List.flatMap_cons, List.length_append, inductionHypothesis, List.map_cons,
        List.flatten_cons]
      omega

/-- The size of a listing of pairs. -/
theorem length_pairsReply (protover : ProtocolVersion) (pairs : List (Bytes × Bytes)) :
    1 + (decimal pairs.length).length + 2 + (pairs.map Prod.fst).flatten.length +
        (pairs.map Prod.snd).flatten.length ≤ (pairsReply protover pairs).length := by
  cases protover with
  | resp2 =>
      have digits := length_decimal_mono (show pairs.length ≤ pairs.length * 2 by omega)
      rw [pairsReply, length_respArray, length_pairs, flatten_pairs, length_flatMap_pairs]
      omega
  | resp3 =>
      have type : (text "%").length = 1 := rfl
      have ends : crlf.length = 2 := rfl
      simp only [pairsReply, flatten_pairs, List.length_append, length_flatMap_pairs]
      omega

end Texts

/-! ## A table of the commands -/

section Tables

variable {table : Table Scalar} {gmp : Gmp} {protover : ProtocolVersion} {buf : Bytes}

theorem maxResponseSize_lt : maxResponseSize < 2 ^ 63 := by decide

theorem pairTexts_names (table : FieldTable) :
    ((pairTexts protover table).map Prod.fst).flatten =
      table.present.flatMap fun field => createRespString field.1 := by
  rw [pairTexts, List.map_map]
  rfl

theorem pairTexts_values (table : FieldTable) :
    ((pairTexts protover table).map Prod.snd).flatten =
      table.present.flatMap fun field => scalarText protover field.2 := by
  rw [pairTexts, List.map_map]
  rfl

/-- The replies of the three listings fit, and so does every value. -/
structure Room (protover : ProtocolVersion) (table : FieldTable) (buf : Bytes) : Prop where
  count : table.present.length ≤ maxResponseSize
  names : 1 + (decimal table.present.length).length + 2 +
    (table.present.flatMap fun field => createRespString field.1).length ≤ buf.length
  values : 1 + (decimal table.present.length).length + 2 +
    (table.present.flatMap fun field => scalarText protover field.2).length ≤ buf.length
  pairs : (pairsReply protover (pairTexts protover table)).length ≤ buf.length
  value : ∀ field ∈ table.present, (scalarText protover field.2).length ≤ buf.length

theorem Lists.room {table : FieldTable} (lists : Lists protover table buf) :
    Room protover table buf := by
  have whole := length_pairsReply protover (pairTexts protover table)
  rw [pairTexts_names, pairTexts_values] at whole
  rw [show (pairTexts protover table).length = table.present.length from List.length_map _] at whole
  have fits := lists.fits
  have length := lists.length
  have strings : table.present.length ≤
      (table.present.flatMap fun field => createRespString field.1).length := by
    have each := length_le_strings (table.present.map Prod.fst)
    rw [List.length_map, List.flatMap_map] at each
    exact each
  refine ⟨by omega, by omega, by omega, by omega, ?_⟩
  intro field member
  have inside : scalarText protover field.2 ∈
      table.present.map fun field => scalarText protover field.2 := List.mem_map_of_mem member
  have shorter := (List.sublist_flatten_of_mem inside).length_le
  rw [← List.flatMap_def] at shorter
  omega

theorem length_header (count : Nat) :
    (text "*" ++ (decimal count ++ crlf)).length = 1 + (decimal count).length + 2 := by
  rw [List.length_append, List.length_append, Nat.add_assoc]
  rfl

/-- A header and the elements behind it. -/
theorem respArray_map {α : Type} (element : α → Bytes) (entries : List α) :
    text "*" ++ (decimal entries.length ++ crlf) ++ entries.flatMap element =
      respArray (entries.map element) := by
  simp only [respArray, List.length_map, List.flatMap_def, List.append_assoc]

theorem hkeys_table (lists : Lists protover table.table buf) :
    hkeys table.table buf =
      some (respArray ((table.entries.map Prod.fst).map createRespString)) := by
  have room := lists.room
  have count : table.table.count = table.table.present.length := table.count_eq
  have small : table.table.present.length < 2 ^ 63 :=
    Nat.lt_of_le_of_lt room.count maxResponseSize_lt
  rw [List.map_map, ← respArray_map, hkeys, count]
  apply listing_eq (writes_header "*" small)
    (fun element _ => writes_respString element.1 maxResponseSize_lt)
  · rw [length_header]
    exact room.names
  · exact Nat.le_of_eq lists.length

theorem hvals_table (lists : Lists protover table.table buf) :
    hvals gmp protover table.table buf =
      some (respArray (table.entries.map fun field => scalarText protover field.2)) := by
  have room := lists.room
  have count : table.table.count = table.table.present.length := table.count_eq
  have small : table.table.present.length < 2 ^ 63 :=
    Nat.lt_of_le_of_lt room.count maxResponseSize_lt
  rw [← respArray_map, hvals, count]
  apply listing_eq (writes_header "*" small)
    (fun element member => writes_dumpValue gmp (lists.listable element member)
      maxResponseSize_lt)
  · rw [length_header]
    exact room.values
  · exact Nat.le_of_eq lists.length

theorem flatMap_pairTexts (table : FieldTable) :
    ((pairTexts protover table).flatMap fun pair => [pair.1, pair.2]).flatten =
      table.present.flatMap fun field =>
        createRespString field.1 ++ scalarText protover field.2 := by
  rw [flatten_pairs, pairTexts, List.flatMap_map]

theorem hgetall_table (lists : Lists protover table.table buf) :
    hgetall gmp protover table.table buf =
      some (pairsReply protover (pairTexts protover table.table)) := by
  have room := lists.room
  have pairs := room.pairs
  have count : table.table.count = table.table.present.length := table.count_eq
  have bound : maxResponseSize * 2 < 2 ^ 63 := by decide
  have writes : ∀ element ∈ table.table.present, Writes maxResponseSize 0
      (dumpHashtable gmp protover element)
      (createRespString element.1 ++ scalarText protover element.2) := fun element member =>
    (writes_respString element.1 maxResponseSize_lt).andThen
      (writes_dumpValue gmp (lists.listable element member) maxResponseSize_lt) (Nat.zero_le _)
  have whole := Nat.le_of_eq lists.length
  have few := room.count
  unfold hgetall pairsReply at *
  cases protover with
  | resp2 =>
      have elements : ((pairTexts .resp2 table.table).flatMap
          fun pair => [pair.1, pair.2]).length = table.table.count * 2 := by
        rw [length_pairs, count]
        exact congrArg (· * 2) (List.length_map _)
      simp only [respArray, elements, flatMap_pairTexts, List.append_assoc] at pairs ⊢
      rw [← List.append_assoc (decimal _), ← List.append_assoc (text _)] at pairs ⊢
      rw [List.length_append] at pairs
      exact listing_eq (writes_header "*" (by omega)) writes pairs whole
  | resp3 =>
      have fields : (pairTexts .resp3 table.table).length = table.table.count :=
        (List.length_map _).trans count.symm
      simp only [fields, flatMap_pairTexts, List.append_assoc] at pairs ⊢
      rw [← List.append_assoc (decimal _), ← List.append_assoc (text _)] at pairs ⊢
      rw [List.length_append] at pairs
      exact listing_eq (writes_header "%" (by omega)) writes pairs whole

theorem getFromHashtable_table (table : Table Scalar) (name : Bytes) :
    getFromHashtable table.table.capacity table.table name =
      some (find stringKeys.equality table.entries name) := by
  have found := table.roomy.wellFormed.getFromHashtable_eq name (Nat.le_refl _)
  rw [table.keys_eq] at found
  exact found

/-- A field of the table is found, and HGET returns its element. -/
theorem hget_table (lists : Lists protover table.table buf)
    {field : HashTableElement Bytes Scalar} (member : field ∈ table.entries) :
    hget gmp protover table.table field.1 buf = some (scalarText protover field.2) := by
  have found : find stringKeys.equality table.entries field.1 = some field :=
    table.distinct.find_eq_some_iff.mpr ⟨member, Table.same_iff.mpr rfl⟩
  rw [hget, getFromHashtable_table, found]
  exact writeValue_eq gmp (lists.listable field member) maxResponseSize_lt
    (lists.room.value field member) (Nat.le_of_eq lists.length)

theorem live_table (table : Table Scalar) (name : Bytes) :
    name ∈ table.entries.map Prod.fst ↔ Live table.table name := by
  rw [Table.mem_names_iff, Table.get_eq_find, Option.isSome_map, Live, getFromHashtable_table,
    Option.isSome_iff_exists]
  simp only [Option.some.injEq]

theorem hlen_eq (table : FieldTable) :
    hlen table = respArray [createRespInteger table.count, createRespInteger table.capacity] := by
  have two : text "*2" = text "*" ++ decimal 2 := by decide
  have shape : ∀ first second, respArray [first, second] =
      text "*" ++ decimal 2 ++ crlf ++ (first ++ (second ++ [])) := fun _ _ => rfl
  rw [shape, hlen, two, List.append_nil, createRespInteger, createRespInteger, List.append_assoc]

/-- The listings of a table of the commands agree. -/
theorem listedAs_table (lists : Lists protover table.table buf) :
    ListedAs gmp protover table.table buf (table.entries.map Prod.fst)
      (table.entries.map fun field => scalarText protover field.2) where
  length_names := (List.length_map _).trans table.count_eq.symm
  length_values := (List.length_map _).trans table.count_eq.symm
  once := table.names_nodup
  live := live_table table
  elements := by
    intro value member
    rcases List.mem_map.mp member with ⟨field, inside, rfl⟩
    exact isElement_scalarText (lists.listable field inside)
  hkeys_eq := hkeys_table lists
  hvals_eq := hvals_table lists
  hgetall_eq := by
    rw [hgetall_table lists, List.map_map, List.zip_map']
    rfl
  hget_eq := by
    rw [List.zip_map']
    intro pair member
    rcases List.mem_map.mp member with ⟨field, inside, rfl⟩
    exact hget_table lists inside
  hlen_eq := hlen_eq table.table

end Tables

/-! ## Cleared arrays -/

section Runs

variable {mpf : Mpf} {table : Table Scalar}

/-- Every key of the array is NULL. -/
def Cleared (array : FieldArray) : Prop := ∀ slot, array slot = none

theorem insert_table (table : Table Scalar) (name : Bytes) (value : Scalar) {array : FieldArray}
    (cleared : Cleared array) :
    ∃ result, insertIntoHashtable (2 * table.table.capacity) array table.table name value =
      some ((table.insert name value).table, result) := by
  obtain rfl : array = fun _ => none := funext cleared
  exact table.insertIntoHashtable_eq name value

theorem delete_table (table : Table Scalar) (name : Bytes) :
    deleteFromHashtable (deletionTurns table.table.capacity) table.table name =
      some ((table.delete name).1.table, (table.delete name).2) := by
  obtain ⟨reached, ends, -⟩ := table.roomy.wellFormed.deleteFromHashtable_spec name
  unfold Table.delete
  split
  · next after deleted removed => exact removed
  · next stuck =>
      exact absurd (stuck.symm.trans (ends _ (Nat.le_refl _))) (Option.some_ne_none _).symm

/-- With cleared arrays the loop of HSET ends, with the table that `setFields` makes. -/
theorem insertFields_table {arrays : Nat → FieldArray} (cleared : ∀ turn, Cleared (arrays turn))
    (turn : Nat) (args : List Argument) (table : Table Scalar) :
    insertFields mpf arrays turn args table.table =
      some (Data.setFields mpf args table).table := by
  induction args, table using Data.setFields.induct mpf generalizing turn with
  | case1 name input rest table inductionHypothesis =>
      rcases insert_table table name.bytes (fieldValue mpf input) (cleared turn) with
        ⟨result, inserted⟩
      rw [insertFields, inserted, Option.bind_eq_bind, Option.bind_some, Data.setFields]
      exact inductionHypothesis (turn + 1)
  | case2 args table short =>
      unfold insertFields Data.setFields
      split
      · next former name input rest => exact absurd rfl (short name input rest)
      · split
        · next former name input rest _ => exact absurd rfl (short name input rest)
        · rfl

theorem removeFields_table (args : List Argument) (table : Table Scalar) :
    removeFields args table.table = some (Data.deleteFields args table).table := by
  induction args generalizing table with
  | nil => rfl
  | cons name rest inductionHypothesis =>
      rw [removeFields, delete_table, Option.bind_eq_bind, Option.bind_some]
      exact inductionHypothesis (table.delete name.bytes).1

/-- A table of the commands, or none. -/
def Kept (stored : Option FieldTable) : Prop :=
  ∀ found, stored = some found → ∃ kept : Table Scalar, found = kept.table

theorem kept_some (kept : Table Scalar) : Kept (some kept.table) := by
  intro found same
  cases same
  exact ⟨kept, rfl⟩

theorem hset_kept {arrays : Nat → FieldArray} {args : List Argument}
    {stored after : Option FieldTable} (cleared : ∀ turn, Cleared (arrays turn))
    (before : Kept stored) (ran : hset mpf arrays args stored = some after) : Kept after := by
  have started : ∃ kept : Table Scalar,
      stored.getD (createHashtable 16 stringKeys) = kept.table := by
    cases stored with
    | none => exact ⟨Table.create 16 Data.capacity_positive, rfl⟩
    | some found => exact before found rfl
  rcases started with ⟨kept, same⟩
  unfold hset at ran
  split at ran
  · cases ran
    exact before
  · rw [same, insertFields_table cleared] at ran
    cases ran
    exact kept_some _

theorem hdel_kept {args : List Argument} {stored after : Option FieldTable}
    (before : Kept stored) (ran : hdel args stored = some after) : Kept after := by
  cases stored with
  | none =>
      cases ran
      exact before
  | some found =>
      rcases before found rfl with ⟨kept, rfl⟩
      dsimp only [hdel] at ran
      split at ran
      · cases ran
        exact before
      · rw [removeFields_table] at ran
        cases ran
        split
        · intro found same
          cases same
        · exact kept_some _

/-- Where every array is cleared, HSET and HDEL only leave tables of the commands. -/
theorem Reached.kept {stored : Option FieldTable} (reached : Reached mpf Cleared stored) :
    Kept stored := by
  induction reached with
  | absent =>
      intro found same
      cases same
  | hset arrays args cleared before ran inductionHypothesis =>
      exact hset_kept cleared inductionHypothesis ran
  | hdel args before ran inductionHypothesis => exact hdel_kept inductionHypothesis ran

/-- In every run of HSET and HDEL in which the arrays that `grow_hashtable` gets are cleared,
HGETALL, HKEYS, HVALS, HLEN and HGET agree on the table. -/
theorem listings_agree {table : FieldTable} (reached : Reached mpf Cleared (some table))
    (gmp : Gmp) {protover : ProtocolVersion} {buf : Bytes} (lists : Lists protover table buf) :
    ListingsAgree gmp protover table buf := by
  rcases reached.kept table rfl with ⟨kept, rfl⟩
  exact ⟨_, _, listedAs_table lists⟩

/-- A library whose estimates are exact. -/
def exactGmp : Gmp where
  sizeInBase := digitCount
  estimate := fun _ => .inl rfl
  getStr := fun _ => four

/-- The arguments of HSET that store null in the field of each letter. -/
def nullFields (letters : String) : List Argument :=
  (text letters).flatMap fun letter => [⟨[letter], []⟩, ⟨[letter], []⟩]

/-- Two fields in a table of the commands. -/
theorem listings_agree_two :
    ListingsAgree exactGmp .resp3
      (Data.setFields Mpf.unused (nullFields "ab") (Table.create 16 Data.capacity_positive)).table
      (List.replicate maxResponseSize 0) := by
  have ran : hset Mpf.unused (fun _ _ => none) (nullFields "ab") none = some (some
      (Data.setFields Mpf.unused (nullFields "ab")
        (Table.create 16 Data.capacity_positive)).table) := by
    have created : createHashtable 16 stringKeys =
        (Table.create 16 Data.capacity_positive : Table Scalar).table := rfl
    rw [hset, if_neg (by decide), Option.getD_none, created, insertFields_table (fun _ _ => rfl)]
    rfl
  exact listings_agree (.hset (fun _ _ => none) (nullFields "ab") (fun _ _ => rfl) .absent ran)
    exactGmp
    { listable := by decide +kernel
      length := List.length_replicate
      fits := by decide +kernel }

end Runs

/-! ## An array with a stale key -/

/-- Where the listings agree there are no more live fields than the count tells. -/
theorem ListingsAgree.length_le {gmp : Gmp} {protover : ProtocolVersion} {table : FieldTable}
    {buf : Bytes} (agree : ListingsAgree gmp protover table buf) {names : List Bytes}
    (nodup : names.Nodup) (live : ∀ name ∈ names, Live table name) :
    names.length ≤ table.count := by
  rcases agree with ⟨listed, values, as⟩
  rw [← as.length_names]
  exact nodup.length_le_of_subset fun name member => (as.live name).mpr (live name member)

/-- An array that still has a key in the slot of `z`. -/
def stale : FieldArray := fun slot => if slot = 6 then some (text "z", .null) else none

/-- Thirteen fields, the last of which made the table grow into such arrays. -/
def staleTable : FieldTable :=
  (insertFields Mpf.unused (fun _ => stale) 0 (nullFields "abcdefghijklm")
    (createHashtable 16 stringKeys)).getD (createHashtable 16 stringKeys)

theorem not_listingsAgree_stale :
    Reached Mpf.unused (fun _ => True) (some staleTable) ∧
      Lists .resp2 staleTable (List.replicate maxResponseSize 0) ∧
      ¬ListingsAgree exactGmp .resp2 staleTable (List.replicate maxResponseSize 0) := by
  have inserted : (insertFields Mpf.unused (fun _ => stale) 0 (nullFields "abcdefghijklm")
      (createHashtable 16 stringKeys)).isSome := by decide +kernel
  have ran : hset Mpf.unused (fun _ => stale) (nullFields "abcdefghijklm") none =
      some (some staleTable) := by
    rcases Option.isSome_iff_exists.mp inserted with ⟨table, same⟩
    rw [hset, if_neg (by decide), Option.getD_none, staleTable, same]
    rfl
  refine ⟨.hset _ _ (fun _ => trivial) .absent ran, ?_, ?_⟩
  · exact
      { listable := by decide +kernel
        length := List.length_replicate
        fits := by decide +kernel }
  · intro agree
    have count : staleTable.count = 13 := by decide +kernel
    have live : ∀ name ∈ (text "abcdefghijklmz").map fun letter => [letter],
        Live staleTable name := by
      have found : ∀ name ∈ (text "abcdefghijklmz").map fun letter => [letter],
          (getFromHashtable staleTable.capacity staleTable name).join.isSome := by
        decide +kernel
      intro name member
      rcases Option.isSome_iff_exists.mp (found name member) with ⟨field, same⟩
      exact ⟨field, Option.join_eq_some_iff.mp same⟩
    have most := agree.length_le (by decide) live
    rw [count] at most
    exact absurd most (by decide)

end TellyDB.Commands
