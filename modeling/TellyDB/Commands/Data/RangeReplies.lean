import TellyDB.Commands.Data.Ranges
import TellyDB.Commands.TableListings

/-!
Owns what `LRANGE` replies: the loop that has `write_value` write one value behind the other into
`write_buf`, and for which lists and indexes the reply is the slice.
-/

namespace TellyDB.Commands.Data

open Resp Server Database.Keyspace Lib.Slices Lib.Writers
open TellyDB.Database (Scalar Table)
open Lib.LinkedSegment (Memory)

/-! ## The loop -/

section Loop

variable (gmp : Gmp) (protover : ProtocolVersion)

/-- A constant: the place is counted, and keeps its bytes. -/
def passOver (part : Bytes) : Writer UInt8 := fun buf =>
  if part.length ≤ buf.length then some (part.length, buf) else none

/-- `write_value` with its place in `write_buf`. -/
def writeInPlace : Scalar → Writer UInt8
  | .unknown => fun _ => none
  | .null => passOver (respNull protover)
  | .int number => fun buf => createRespIntegerMpz protover (gmp.sizeInBase number) buf number
  | .double number => fun buf => createRespIntegerMpf protover buf (gmp.getStr number)
  | .str string => writeRespString string
  | .bool boolean => passOver (cBool protover boolean)

/-- The header of an array. -/
def rangeHeader (count : Nat) : Bytes := text "*" ++ decimal count ++ crlf

/-- `sprintf` of the header, with its NUL. -/
def writeRangeHeader (count : Nat) : Writer UInt8 := fun buf => do
  let buf ← put buf 0 (rangeHeader count ++ [0])
  some ((rangeHeader count).length, buf)

/-- The values one behind the other. -/
def writeValues : List Scalar → Nat × Bytes → Option (Nat × Bytes)
  | [], response => some response
  | value :: rest, response => do
      let response ← append (writeInPlace gmp protover value) response
      writeValues rest response

def writeRange (values : List Scalar) : Writer UInt8 := fun buf => do
  let response ← writeRangeHeader values.length buf
  writeValues gmp protover values response

/-- What `LRANGE` returns of a list between two normalized indexes. -/
def rangeBytes (list : ListValue) (start stop : Nat) (buf : Bytes) : Option Bytes :=
  if list.size = 0 ∨ start ≥ list.size ∨ stop ≤ start ∨ stop = list.size then
    some (text "*0" ++ crlf)
  else do
    let values ← collectValues list (stop - start + 1) start stop
    written (writeRange gmp protover values) buf

/-- `write_value` returns these bytes of the value, wherever it has its place. -/
def Piece (value : Scalar) (piece : Bytes) : Prop :=
  ∃ place, Resp.writeValue gmp protover value place = some piece

/-- All values are copied, and they and their header fit into `write_buf`, whatever it holds. -/
structure Writable (values : List Scalar) : Prop where
  copied : ∀ value ∈ values, Copied value
  fits : ∀ buf : Bytes, buf.length = maxResponseSize →
    (writeRange gmp protover values buf).isSome = true

end Loop

section Pieces

variable {gmp : Gmp} {protover : ProtocolVersion} {value : Scalar} {values : List Scalar}

theorem counts_passOver (part : Bytes) : Counts (passOver part) := by
  intro buf count after passed
  rw [passOver] at passed
  split at passed
  · next room =>
      cases passed
      exact room
  · cases passed

theorem counts_writeInPlace (value : Scalar) : Counts (writeInPlace gmp protover value) := by
  cases value with
  | unknown =>
      intro buf count after wrote
      cases wrote
  | null => exact counts_passOver _
  | int number => exact counts_integer _ number
  | double number => exact counts_double _
  | str string => exact counts_respString string
  | bool boolean => exact counts_passOver _

/-- What is written in place of a value is what `write_value` returns, if it is copied. -/
theorem piece_of_writeInPlace {count : Nat} {buf after : Bytes} (copied : Copied value)
    (wrote : writeInPlace gmp protover value buf = some (count, after)) :
    Piece gmp protover value (after.take count) := by
  refine ⟨buf, ?_⟩
  cases value with
  | null | bool => cases copied
  | unknown => cases wrote
  | int | double | str =>
      rw [Resp.writeValue, written]
      exact congrArg (fun response => response.bind fun response =>
        some (response.2.take response.1)) wrote

theorem writeValues_pieces {response after : Nat × Bytes}
    (copied : ∀ value ∈ values, Copied value) (within : response.1 ≤ response.2.length)
    (wrote : writeValues gmp protover values response = some after) :
    ∃ pieces, List.Forall₂ (Piece gmp protover) values pieces ∧
      after.2.take after.1 = response.2.take response.1 ++ pieces.flatten := by
  induction values generalizing response with
  | nil =>
      cases wrote
      exact ⟨[], .nil, (List.append_nil _).symm⟩
  | cons value rest inductionHypothesis =>
      obtain ⟨middle, appended, wrote⟩ := Option.bind_eq_some_iff.mp wrote
      obtain ⟨count, placed, here, front, inside⟩ :=
        append_eq_some (counts_writeInPlace value) within appended
      obtain ⟨pieces, all, whole⟩ := inductionHypothesis
        (fun other member => copied other (List.mem_cons_of_mem value member)) inside wrote
      have piece := piece_of_writeInPlace (copied value List.mem_cons_self) here
      refine ⟨placed.take count :: pieces, .cons piece all, ?_⟩
      rw [whole, front, List.flatten_cons, List.append_assoc]

theorem writeRangeHeader_eq {count : Nat} {buf : Bytes}
    (room : (rangeHeader count).length + 1 ≤ buf.length) :
    writeRangeHeader count buf = some ((rangeHeader count).length,
      rangeHeader count ++ 0 :: buf.drop ((rangeHeader count).length + 1)) := by
  have placed : put buf 0 (rangeHeader count ++ [0]) = some _ := put_zero (by simpa using room)
  rw [writeRangeHeader, placed]
  simp

/-- The reply is the array of what `write_value` returns of the values. -/
theorem written_writeRange {buf : Bytes} (copied : ∀ value ∈ values, Copied value)
    (fits : (writeRange gmp protover values buf).isSome = true) :
    ∃ pieces, List.Forall₂ (Piece gmp protover) values pieces ∧
      written (writeRange gmp protover values) buf = some (respArray pieces) := by
  obtain ⟨after, wrote⟩ := Option.isSome_iff_exists.mp fits
  obtain ⟨response, header, later⟩ := Option.bind_eq_some_iff.mp wrote
  have room : (rangeHeader values.length).length + 1 ≤ buf.length := by
    obtain ⟨placed, put, _⟩ := Option.bind_eq_some_iff.mp header
    have inside := (put_inside put).2.1
    rw [List.length_append, List.length_singleton] at inside
    omega
  rw [writeRangeHeader_eq room] at header
  cases header
  obtain ⟨pieces, all, whole⟩ := writeValues_pieces copied
    (by rw [List.length_append]; exact Nat.le_add_right _ _) later
  refine ⟨pieces, all, ?_⟩
  rw [written, wrote]
  show some (after.2.take after.1) = _
  rw [whole, List.take_left, respArray, ← all.length_eq]
  rfl

/-- Strings and integers of 64 bits are written when their texts fit. -/
theorem writeValues_filled {size : Nat} {front : Bytes} {response : Nat × Bytes}
    (filled : Filled size front response)
    (copied : ∀ value ∈ values, Copied value) (listable : ∀ value ∈ values, Listable value)
    (room : front.length + (values.flatMap (scalarText protover)).length ≤ size)
    (small : size ≤ maxResponseSize) :
    (writeValues gmp protover values response).isSome = true := by
  induction values generalizing front response with
  | nil => rfl
  | cons value rest inductionHypothesis =>
      rw [List.flatMap_cons, List.length_append] at room
      have writes : Writes maxResponseSize 0 (writeInPlace gmp protover value)
          (scalarText protover value) := by
        have here := listable value List.mem_cons_self
        cases value with
        | null | bool => cases copied _ List.mem_cons_self
        | unknown | double => cases here
        | int number => exact writes_integer gmp here
        | str string => exact writes_respString string maxResponseSize_lt
      obtain ⟨after, appended, filledAfter⟩ := filled.append writes (by omega) small
      have later := inductionHypothesis filledAfter
        (fun other member => copied other (List.mem_cons_of_mem value member))
        (fun other member => listable other (List.mem_cons_of_mem value member))
        (by rw [List.length_append]; omega)
      rw [writeValues, appended]
      exact later

theorem writable_of_fits {gmp : Gmp} (some_ : values ≠ [])
    (copied : ∀ value ∈ values, Copied value) (listable : ∀ value ∈ values, Listable value)
    (fits : (respArray (values.map (scalarText protover))).length ≤ maxResponseSize) :
    Writable gmp protover values := by
  refine ⟨copied, fun buf length => ?_⟩
  have texts : (respArray (values.map (scalarText protover))).length =
      (rangeHeader values.length).length + (values.flatMap (scalarText protover)).length := by
    rw [respArray, List.length_map, List.length_append, List.flatMap_def]
    rfl
  have more : 1 ≤ (values.flatMap (scalarText protover)).length := by
    obtain ⟨value, rest, rfl⟩ := List.exists_cons_of_ne_nil some_
    have here := listable value List.mem_cons_self
    rw [List.flatMap_cons, List.length_append]
    apply Nat.le_add_right_of_le
    cases value with
    | null | bool => cases copied _ List.mem_cons_self
    | unknown | double => cases here
    | int number => simp only [scalarText, List.length_append, length_crlf]; omega
    | str string => simp only [scalarText, createRespString, List.length_append, length_crlf]; omega
  have header := writeRangeHeader_eq (show (rangeHeader values.length).length + 1 ≤ buf.length by
    omega)
  rw [writeRange, header]
  refine writeValues_filled ⟨_, rfl, ?_⟩ copied listable (by rw [← texts]; exact fits)
    (Nat.le_refl _)
  rw [List.length_cons, List.length_drop]
  omega

end Pieces

/-! ## The reply -/

/-- `LRANGE` replies with the slice of the list between the two indexes, element by element and in
the bytes of `write_buf`, and the walk over the nodes of the list, wherever they lie, stays on them
and yields it. -/
structure AnswersSlice (gmp : Gmp) (entry : Entry) (data : Data) (list : ListValue)
    (start stop : Argument) : Prop where
  reply : ∃ elements,
    (slice list.elements (integerValue start.bytes) (integerValue stop.bytes)).mapM writeScalar =
        some elements ∧
      runLrange entry data = some (data, .array elements.length elements)
  bytes : ∀ protover, entry.client = some protover →
    ∀ buf : Bytes, buf.length = maxResponseSize → ∃ pieces,
      List.Forall₂ (Piece gmp protover)
        (slice list.elements (integerValue start.bytes) (integerValue stop.bytes)) pieces ∧
      rangeBytes gmp protover list (normalizeIndex list.size start.bytes)
        (normalizeIndex list.size stop.bytes) buf = some (respArray pieces)
  walk : ∀ (memory : Memory Scalar) (linked : Utils.LinkedList) (nodes : List (Nat × Scalar)),
    linked.Linked memory nodes → nodes.map Prod.snd = list.elements →
      ListKey.lrange ⟨memory, some linked⟩ (indexLiteral start.bytes) (indexLiteral stop.bytes) =
        some (slice list.elements (integerValue start.bytes) (integerValue stop.bytes))

/-- The bytes are those of the values that are collected. -/
theorem rangeBytes_collected {gmp : Gmp} {protover : ProtocolVersion} {list : ListValue}
    {start stop : Nat} {values : List Scalar} (within : stop ≤ list.size)
    (walked : collected list start stop = some values) (buf : Bytes) :
    rangeBytes gmp protover list start stop buf =
      if values = [] then some (text "*0" ++ crlf)
      else written (writeRange gmp protover values) buf := by
  rw [collected] at walked
  rw [rangeBytes]
  split
  · next refused =>
      rw [if_pos refused] at walked
      cases walked
      rfl
  · next walks =>
      rw [if_neg walks] at walked
      push Not at walks
      have length := collectValues_length (by omega) walked
      have some_ : values ≠ [] := fun none_ => by
        rw [none_] at length
        cases length
      rw [walked, if_neg some_]
      rfl

/-- `LRANGE` answers with the slice exactly when its walk reaches it, and what it reaches can be
written: no null and no boolean, and not beyond `write_buf`. -/
theorem lrange_slice_iff {gmp : Gmp} {protover : ProtocolVersion} {entry : Entry} {data : Data}
    {key start stop : Argument} {kv : KeyValue} {list : ListValue}
    (connected : entry.client = some protover)
    (args : entry.args = [key, start, stop]) (found : getData data key.bytes = some kv)
    (holds : kv.value = .list list) (wellFormed : WellFormed list)
    (startInteger : tryParseInteger start = true) (stopInteger : tryParseInteger stop = true) :
    AnswersSlice gmp entry data list start stop ↔
      SliceReached list.elements (integerValue start.bytes) (integerValue stop.bytes) ∧
        (InBounds list.size (integerValue start.bytes) (integerValue stop.bytes) →
          Writable gmp protover
            (slice list.elements (integerValue start.bytes) (integerValue stop.bytes))) := by
  have client : entry.client ≠ none := by
    rw [connected]
    exact Option.some_ne_none _
  have run := runLrange_collected client args found holds startInteger stopInteger
  have startAt := normalizeIndex_eq ((tryParseInteger_iff start).mp startInteger).1
    wellFormed.size_le
  have stopAt := normalizeIndex_eq ((tryParseInteger_iff stop).mp stopInteger).1
    wellFormed.size_le
  have within := normalizeIndex_le list.size stop.bytes
  have known : ∀ value ∈ slice list.elements (integerValue start.bytes)
      (integerValue stop.bytes), value ≠ .unknown :=
    fun value member => wellFormed.known value (mem_of_mem_slice member)
  obtain ⟨elements, written, length⟩ := mapM_writeScalar known
  rw [← collected_eq_slice_iff, ← startAt, ← stopAt]
  constructor
  · rintro ⟨⟨others, writtenOthers, replied⟩, bytes, _⟩
    cases writtenOthers.symm.trans written
    rw [run, Option.bind_eq_some_iff] at replied
    obtain ⟨values, walked, answered⟩ := replied
    obtain ⟨inPlace, placed, same⟩ := Option.map_eq_some_iff.mp answered
    obtain ⟨_, rfl⟩ := Reply.array.inj (Prod.mk.inj same).2
    obtain ⟨rfl, copied⟩ := (mapM_elementInPlace_iff written).mp placed
    refine ⟨walked, fun inside => ⟨copied, fun buf room => ?_⟩⟩
    have some_ := mt (slice_eq_nil_iff list.elements _ _).mp (not_not.mpr inside)
    obtain ⟨pieces, _, returned⟩ := bytes protover connected buf room
    rw [rangeBytes_collected within walked, if_neg some_] at returned
    obtain ⟨response, wrote, _⟩ := Option.bind_eq_some_iff.mp returned
    rw [wrote]
    rfl
  · rintro ⟨walked, writes⟩
    have copied : ∀ value ∈ slice list.elements (integerValue start.bytes)
        (integerValue stop.bytes), Copied value := by
      intro value member
      have some_ := List.ne_nil_of_mem member
      have inside := not_not.mp (mt (slice_eq_nil_iff list.elements _ _).mpr some_)
      exact (writes inside).copied value member
    constructor
    case reply =>
      have placed := (mapM_elementInPlace_iff written).mpr ⟨rfl, copied⟩
      refine ⟨elements, written, ?_⟩
      rw [run, walked, Option.bind_some, placed, Option.map_some, length]
    case bytes =>
      intro other client buf room
      cases connected.symm.trans client
      rw [rangeBytes_collected within walked]
      split
      · next none_ =>
          rw [none_]
          exact ⟨[], .nil, rfl⟩
      · next some_ =>
          have inside := not_not.mp (mt (slice_eq_nil_iff list.elements _ _).mpr some_)
          exact written_writeRange copied ((writes inside).fits buf room)
    case walk =>
      intro memory linked nodes links stored
      rw [lrange_nodes links stored, walked]

/-! ## Short lists -/

/-- A list of these elements. -/
def listOf (elements : List Scalar) : ListValue := ⟨elements, false, false⟩

/-- The list lies under `l`. -/
def listDatabase (elements : List Scalar) : Data :=
  (Table.create 16 capacity_positive).insert (text "l") ⟨.list (listOf elements), none⟩

/-- LRANGE l, with the two indexes. -/
def rangeEntry (start stop : String) : Entry :=
  ⟨some .resp3, [⟨text "l", []⟩, ⟨text start, []⟩, ⟨text stop, []⟩], Permission.all⟩

theorem listDatabase_held (elements : List Scalar) :
    getData (listDatabase elements) (⟨text "l", []⟩ : Argument).bytes =
      some ⟨.list (listOf elements), none⟩ := by
  rw [getData, listDatabase, Table.get_insert, Table.get_create, if_pos rfl, Option.none_or]

theorem lrange_slice_whole :
    AnswersSlice exactGmp (rangeEntry "0" "-1") (listDatabase [.int 1, .int 2, .int 3])
      (listOf [.int 1, .int 2, .int 3]) ⟨text "0", []⟩ ⟨text "-1", []⟩ :=
  (lrange_slice_iff rfl rfl (listDatabase_held _) rfl ⟨by decide, by decide⟩ (by decide)
    (by decide)).mpr ⟨by decide, fun _ =>
      writable_of_fits (by decide) (by decide) (by decide) (by decide)⟩

/-- LRANGE l 0 0 is empty, LRANGE l 3 4 reads other elements, and a null is not written. -/
theorem lrange_slice_fails :
    ¬AnswersSlice exactGmp (rangeEntry "0" "0") (listDatabase [.int 1, .int 2, .int 3])
        (listOf [.int 1, .int 2, .int 3]) ⟨text "0", []⟩ ⟨text "0", []⟩ ∧
      ¬AnswersSlice exactGmp (rangeEntry "3" "4")
        (listDatabase [.int 1, .int 2, .int 3, .int 4, .int 5])
        (listOf [.int 1, .int 2, .int 3, .int 4, .int 5]) ⟨text "3", []⟩ ⟨text "4", []⟩ ∧
      ¬AnswersSlice exactGmp (rangeEntry "0" "1") (listDatabase [.bool true, .null])
        (listOf [.bool true, .null]) ⟨text "0", []⟩ ⟨text "1", []⟩ := by
  have fails : ∀ {elements : List Scalar} {start stop : String} {found : Option (List Element)},
      tryParseInteger ⟨text start, []⟩ = true → tryParseInteger ⟨text stop, []⟩ = true →
      (collected (listOf elements) (normalizeIndex elements.length (text start))
        (normalizeIndex elements.length (text stop))).bind (List.mapM elementInPlace) = found →
      (slice elements (integerValue (text start)) (integerValue (text stop))).mapM writeScalar ≠
        found →
      ¬AnswersSlice exactGmp (rangeEntry start stop) (listDatabase elements) (listOf elements)
        ⟨text start, []⟩ ⟨text stop, []⟩ := by
    rintro elements start stop found startInteger stopInteger collects differs
      ⟨⟨others, written, replied⟩, _, _⟩
    rw [runLrange_collected (Option.some_ne_none _) rfl (listDatabase_held elements) rfl startInteger
      stopInteger] at replied
    obtain ⟨values, walked, answered⟩ := Option.bind_eq_some_iff.mp replied
    obtain ⟨placed, inPlace, same⟩ := Option.map_eq_some_iff.mp answered
    obtain ⟨_, rfl⟩ := Reply.array.inj (Prod.mk.inj same).2
    refine differs (written.trans ?_)
    rw [← collects]
    have gathered := congrArg (fun found => found.bind (List.mapM elementInPlace)) walked
    exact (gathered.trans inPlace).symm
  refine ⟨?_, ?_, ?_⟩
  · exact fails (by decide) (by decide) rfl (by decide)
  · exact fails (by decide) (by decide) rfl (by decide)
  · exact fails (by decide) (by decide) rfl (by decide)

end TellyDB.Commands.Data
