import Mathlib.Data.List.Basic

/-!
Owns the reply texts of `headers/resp/macros.h` and the small encoders of
`resp/utils.c` that the session commands use.
-/

namespace TellyDB.Resp

abbrev Bytes := List UInt8

/-- The bytes of an ASCII string literal. -/
def text (literal : String) : Bytes :=
  literal.toList.map fun character => UInt8.ofNat character.toNat

/-- `ltoa` of a number that is not negative. -/
def decimal (value : Nat) : Bytes :=
  (Nat.toDigits 10 value).map fun character => UInt8.ofNat character.toNat

def crlf : Bytes := [0x0d, 0x0a]

/-- `RESP_OK_MESSAGE(message)`. -/
def respOkMessage (message : String) : Bytes := text "+" ++ text message ++ crlf

/-- `RESP_OK()`. -/
def respOk : Bytes := respOkMessage "OK"

/-- `RESP_ERROR_MESSAGE(message)`. -/
def respErrorMessage (message : String) : Bytes := text "-" ++ text message ++ crlf

/-- `WRONG_ARGUMENT_ERROR(name)`. -/
def wrongArgumentError (name : String) : Bytes :=
  respErrorMessage ("Wrong argument count for '" ++ name ++ "' command")

/-- `MISSING_SUBCOMMAND_ERROR(name)`. -/
def missingSubcommandError (name : String) : Bytes :=
  respErrorMessage ("Missing subcommand for '" ++ name ++ "' command")

/-- `INVALID_SUBCOMMAND_ERROR(name)`. -/
def invalidSubcommandError (name : String) : Bytes :=
  respErrorMessage ("Invalid subcommand for '" ++ name ++ "' command")

/-- `create_resp_integer`. -/
def createRespInteger (value : Nat) : Bytes := text ":" ++ decimal value ++ crlf

/-- `create_resp_string`. -/
def createRespString (string : Bytes) : Bytes :=
  text "$" ++ decimal string.length ++ crlf ++ string ++ crlf

/-- `to_uppercase`. -/
def toUppercase (string : Bytes) : Bytes :=
  string.map fun byte => if 0x61 ≤ byte ∧ byte ≤ 0x7a then byte - 0x20 else byte

end TellyDB.Resp
