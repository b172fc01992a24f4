import TellyDB.Database.Read.Authorization
import TellyDB.Database.Read.Records
import TellyDB.Database.Read.Source

/-!
Owns `read_file` of `database/read/read.c` and `open_database_fd` of
`database/file/file.c`, where every allocation and system call succeeds. The file is
what `stat` and `read` find; `none` is a start that fails or leaves its memory.
-/

namespace TellyDB.Database.Read

open Resp Utils Lib.Slices Lib.Positional
open File (Password magic)

instance (arguments : GenericArguments) : Decidable (Standing arguments) :=
  decidable_of_iff (arguments.block.length = arguments.blockSize ∧
      arguments.position < arguments.blockSize ∧ arguments.blockSize < UInt16.size)
    ⟨fun both => ⟨both.1, both.2.1, both.2.2⟩,
      fun standing => ⟨standing.loaded, standing.inBlock, standing.bounded⟩⟩

/-- `create_initial_database`. -/
def createInitialDatabase (databaseName : Bytes) : LoadedDatabase :=
  ⟨databaseName, HashTable.createHashtable databaseInitialSize stringKeys⟩

/-- What `get_authorization_from_file` leaves of the arguments: the block it has loaded last, and
the place behind the passwords in it. -/
def GenericArguments.reached (arguments : GenericArguments) (authorization : Authorization) :
    GenericArguments :=
  if authorization.start = 0 then { arguments with position := authorization.filled }
  else
    let bytes := slice arguments.file authorization.start arguments.blockSize
    let before := slice arguments.file (authorization.start - arguments.blockSize)
      arguments.blockSize
    { arguments with
      offset := authorization.start + bytes.length
      block := bytes ++ before.drop bytes.length
      position := authorization.filled }

/-- The databases that are read from a file, and the one of the configuration where it is not
among them. -/
structure Databases where
  found : List LoadedDatabase
  created : Option LoadedDatabase

/-- `read_file`, with the databases it leaves. Each turn of its loops reads a byte, and they take
`fuel` turns at most. -/
def readFile (fuel fileSize : Nat) (databaseName : Bytes) (arguments : GenericArguments) :
    Option Databases :=
  if arguments.position = fileSize then some ⟨[], some (createInitialDatabase databaseName)⟩
  else if standing : Standing arguments then do
    let (found, _) ← collectDatabases blockSource fuel fileSize fuel arguments.position
      ⟨arguments, standing⟩
    if found.any fun database => stringHash database.name = stringHash databaseName then
      some ⟨found, none⟩
    else some ⟨found, some (createInitialDatabase databaseName)⟩
  else none

/-- What a server holds once its file is open. -/
structure Opened where
  serverAge : Nat
  passwords : List Password
  databases : Databases

/-- `open_database_fd`, for the database of this name in the configuration. `padding` is what the
memory of the block held behind a file that is shorter. -/
def openDatabaseFd (fuel : Nat) (databaseName file padding : Bytes) (capacity : Nat) :
    Option Opened :=
  if file = [] then some ⟨0, [], [], some (createInitialDatabase databaseName)⟩
  else do
    let arguments := loaded file padding capacity 0
    let constant ← copyBlock arguments.block 0 2
    if constant ≠ magic then none
    else do
      let serverAge ← copyBlock arguments.block 2 4
      let authorization ← getAuthorizationFromFile arguments
      let databases ← readFile fuel file.length databaseName (arguments.reached authorization)
      some ⟨ofLittleEndian serverAge, authorization.passwords, databases⟩

end TellyDB.Database.Read
