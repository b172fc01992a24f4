import TellyDB.Commands.Data.Tables
import TellyDB.Commands.SessionCommands
import TellyDB.Resp.Elements

/-!
Owns the bytes that HGETALL, HKEYS, HVALS, HGET and HLEN write about a hash table, and what
HSET and HDEL make of one whatever the arrays contain that it grows into.

A listing takes its header from the count of the table and its elements from the slots.
-/

namespace TellyDB.Commands

open Resp Lib.Writers Utils Utils.HashTable
open Database (Scalar Table stringKeys)
open Server (ProtocolVersion maxResponseSize)

/-- The hash table of a key. -/
abbrev FieldTable := HashTable Bytes Scalar

/-- The slots of an array. -/
abbrev FieldArray := Nat → Option (HashTableElement Bytes Scalar)

/-! ## Replies -/

/-- What a listing counts in the buffer: a header, and what `foreach_hashtable` adds. -/
def listing (header : Writer UInt8) (procedure : HashTableElement Bytes Scalar → Writer UInt8)
    (table : FieldTable) (buf : Bytes) : Option Bytes := do
  let (nbytes, buf) ← foreachHashtable table
    (fun element response => response.bind (append (procedure element))) (header buf)
  some (buf.take nbytes)

/-- `dump_hashtable_keys`. -/
def dumpHashtableKeys (element : HashTableElement Bytes Scalar) : Writer UInt8 :=
  writeRespString element.1

/-- `HKEYS`. -/
def hkeys (table : FieldTable) (buf : Bytes) : Option Bytes :=
  listing (writeHeader "*" table.count) dumpHashtableKeys table buf

/-- `HLEN`. -/
def hlen (table : FieldTable) : Bytes :=
  text "*2" ++ crlf ++ (text ":" ++ decimal table.count ++ crlf) ++
    (text ":" ++ decimal table.capacity ++ crlf)

section Values

variable (gmp : Gmp) (protover : ProtocolVersion)

/-- `HVALS`. -/
def hvals (table : FieldTable) (buf : Bytes) : Option Bytes :=
  listing (writeHeader "*" table.count) (fun element => dumpValue gmp protover element.2) table
    buf

/-- `dump_hashtable` of `hgetall.c`. -/
def dumpHashtable (element : HashTableElement Bytes Scalar) : Writer UInt8 :=
  andThen (writeRespString element.1) (dumpValue gmp protover element.2)

/-- `HGETALL`. -/
def hgetall (table : FieldTable) (buf : Bytes) : Option Bytes :=
  let header := match protover with
    | .resp2 => writeHeader "*" (table.count * 2)
    | .resp3 => writeHeader "%" table.count
  listing header (dumpHashtable gmp protover) table buf

/-- `HGET`. -/
def hget (table : FieldTable) (name : Bytes) (buf : Bytes) : Option Bytes := do
  match ← getFromHashtable table.capacity table name with
  | some field => writeValue gmp protover field.2 buf
  | none => some (respNull protover)

end Values

/-! ## HSET and HDEL -/

section Requests

variable (mpf : Mpf)

/-- The loop of `HSET`, with the array that each insertion would grow into. -/
def insertFields (arrays : Nat → FieldArray) : Nat → List Argument → FieldTable →
    Option FieldTable
  | turn, name :: input :: rest, table => do
      let (table, _) ← insertIntoHashtable (2 * table.capacity) (arrays turn) table name.bytes
        (fieldValue mpf input)
      insertFields arrays (turn + 1) rest table
  | _, _, table => some table

/-- `HSET` with the arguments behind the key, for a key that is absent or a hash table. -/
def hset (arrays : Nat → FieldArray) (args : List Argument) (stored : Option FieldTable) :
    Option (Option FieldTable) :=
  if args = [] ∨ args.length % 2 ≠ 0 then some stored
  else do
    let table ← insertFields mpf arrays 0 args
      (stored.getD (createHashtable 16 stringKeys))
    some (some table)

/-- The loop of `HDEL`. -/
def removeFields : List Argument → FieldTable → Option FieldTable
  | [], table => some table
  | name :: rest, table => do
      let (table, _) ← deleteFromHashtable (deletionTurns table.capacity) table name.bytes
      removeFields rest table

/-- `HDEL` with the arguments behind the key, by a client with P_READ. An empty table is
deleted. -/
def hdel (args : List Argument) : Option FieldTable → Option (Option FieldTable)
  | none => some none
  | some table =>
      if args = [] then some (some table)
      else do
        let after ← removeFields args table
        some (if after.count = 0 then none else some after)

/-- What HSET and HDEL leave under a key, from an absent key on, where the allocator only
delivers arrays of this kind. -/
inductive Reached (delivers : FieldArray → Prop) : Option FieldTable → Prop where
  | absent : Reached delivers none
  | hset {stored after : Option FieldTable} (arrays : Nat → FieldArray) (args : List Argument)
      (delivered : ∀ turn, delivers (arrays turn)) (before : Reached delivers stored)
      (ran : hset mpf arrays args stored = some after) : Reached delivers after
  | hdel {stored after : Option FieldTable} (args : List Argument)
      (before : Reached delivers stored) (ran : hdel args stored = some after) :
      Reached delivers after

end Requests

/-! ## What listings agree on -/

/-- These pairs: an array of their elements under RESP2, a map of them under RESP3. -/
def pairsReply (protover : ProtocolVersion) (pairs : List (Bytes × Bytes)) : Bytes :=
  let elements := pairs.flatMap fun pair => [pair.1, pair.2]
  match protover with
  | .resp2 => respArray elements
  | .resp3 => text "%" ++ decimal pairs.length ++ crlf ++ elements.flatten

/-- The field is found. -/
def Live (table : FieldTable) (name : Bytes) : Prop :=
  ∃ field, getFromHashtable table.capacity table name = some (some field)

/-- The listings and HLEN tell of these fields, each once, and HGET of the same values. -/
structure ListedAs (gmp : Gmp) (protover : ProtocolVersion) (table : FieldTable) (buf : Bytes)
    (names values : List Bytes) : Prop where
  length_names : names.length = table.count
  length_values : values.length = table.count
  once : names.Nodup
  live : ∀ name, name ∈ names ↔ Live table name
  elements : ∀ value ∈ values, IsElement protover value
  hkeys_eq : hkeys table buf = some (respArray (names.map createRespString))
  hvals_eq : hvals gmp protover table buf = some (respArray values)
  hgetall_eq : hgetall gmp protover table buf =
    some (pairsReply protover ((names.map createRespString).zip values))
  hget_eq : ∀ field ∈ names.zip values, hget gmp protover table field.1 buf = some field.2
  hlen_eq : hlen table = respArray [createRespInteger table.count,
    createRespInteger table.capacity]

/-- HGETALL, HKEYS, HVALS, HLEN and HGET agree on the table. -/
def ListingsAgree (gmp : Gmp) (protover : ProtocolVersion) (table : FieldTable) (buf : Bytes) :
    Prop :=
  ∃ names values, ListedAs gmp protover table buf names values

/-- The fields in slot order, as elements. -/
def pairTexts (protover : ProtocolVersion) (table : FieldTable) : List (Bytes × Bytes) :=
  table.present.map fun field => (createRespString field.1, scalarText protover field.2)

/-- All values can be listed, and the reply of HGETALL, the longest one, fits. -/
structure Lists (protover : ProtocolVersion) (table : FieldTable) (buf : Bytes) : Prop where
  listable : ∀ field ∈ table.present, Listable field.2
  length : buf.length = maxResponseSize
  fits : (pairsReply protover (pairTexts protover table)).length ≤ maxResponseSize

end TellyDB.Commands
