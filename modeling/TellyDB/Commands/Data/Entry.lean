import TellyDB.Commands.Arguments
import TellyDB.Database.Keyspace
import TellyDB.Server.State

/-!
Owns what a command on the databases is given and what it returns.

A reply is the elements that the handler writes, not their bytes: how a number, a
null or a boolean is spelled depends on the protocol of the client alone. Whether
they fit into `write_buf` is left open here.
-/

namespace TellyDB.Commands.Data

open Resp Server Database.Keyspace
open Database (Scalar Double TellyType)

/-- `CommandEntry`, without the database and of the client only its protocol; `client` is `none`
where it is NULL. -/
structure Entry where
  client : Option ProtocolVersion
  args : List Argument
  permissions : Permissions

/-- One element of a reply; `stale` are bytes that `write_buf` held before, in its place. -/
inductive Element where
  | stale
  | null
  | simple (message : String)
  | error (message : String)
  | count (value : Nat)
  | int (number : Int)
  | double (number : Double)
  | string (bytes : Bytes)
  | bool (boolean : Bool)
deriving DecidableEq

/-- The `string_t` a handler returns. The header of an array or a map announces as many elements
or pairs as it says. -/
inductive Reply where
  | empty
  | element (element : Element)
  | array (announced : Nat) (elements : List Element)
  | map (announced : Nat) (elements : List Element)
deriving DecidableEq

namespace Reply

/-- `RESP_OK()`. -/
def ok : Reply := .element (.simple "OK")

/-- `RESP_NULL(protover)`. -/
def null : Reply := .element .null

/-- `RESP_ERROR_MESSAGE(message)`. -/
def error (message : String) : Reply := .element (.error message)

/-- `WRONG_ARGUMENT_ERROR(name)`. -/
def wrongArgumentError (name : String) : Reply :=
  error ("Wrong argument count for '" ++ name ++ "' command")

/-- `INVALID_TYPE_ERROR(name)`. -/
def invalidTypeError (name : String) : Reply :=
  error ("Invalid type for '" ++ name ++ "' command")

/-- `create_resp_integer`. -/
def integer (value : Nat) : Reply := .element (.count value)

end Reply

/-- `PASS_NO_CLIENT(client)` before a reply is returned. -/
def Entry.answer (entry : Entry) (reply : Reply) : Reply :=
  match entry.client with
  | none => .empty
  | some _ => reply

/-- `write_value` of a value that is no collection. -/
def writeScalar : Scalar → Option Element
  | .unknown => none
  | .null => some .null
  | .int number => some (.int number)
  | .double number => some (.double number)
  | .str string => some (.string string)
  | .bool boolean => some (.bool boolean)

/-- `write_value`. -/
def writeValue : Value → Option Element
  | .scalar value => writeScalar value
  | .hashtable _ => some (.simple "hash table")
  | .list _ => some (.simple "list")

/-- `get_resp_type_name`. -/
def getRespTypeName : TellyType → Option Element
  | .unknown => none
  | .null => some (.simple "null")
  | .int => some (.simple "integer")
  | .double => some (.simple "double")
  | .str => some (.simple "string")
  | .hashtable => some (.simple "hashtable")
  | .list => some (.simple "list")
  | .bool => some (.simple "boolean")

/-- What a command on one database does. -/
abbrev Run : Type := Entry → Data → Option (Data × Reply)

/-- `PASS_NO_CLIENT(entry->client)` at the start of a handler that only reads. -/
def reading (body : List Argument → Data → Option Reply) : Run := fun entry data =>
  match entry.client with
  | none => some (data, .empty)
  | some _ => (body entry.args data).map fun reply => (data, reply)

end TellyDB.Commands.Data
