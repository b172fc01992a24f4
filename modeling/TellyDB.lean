import TellyDB.Lib.Circular
import TellyDB.Lib.SlotArray
import TellyDB.Lib.LinearProbing
import TellyDB.Lib.RingWalk
import TellyDB.Lib.FiniteMap
import TellyDB.Lib.Transition
import TellyDB.Lib.Lifetimes
import TellyDB.Lib.Traced
import TellyDB.Utils.HashTable
import TellyDB.Utils.HashTable.Operations
import TellyDB.Utils.HashTable.Refinement
import TellyDB.Utils.HashTable.Growth
import TellyDB.Utils.ThreadQueue
import TellyDB.Utils.ThreadQueue.Invariant
import TellyDB.Utils.ThreadQueue.Frame
import TellyDB.Utils.ThreadQueue.Steps
import TellyDB.Utils.ThreadQueue.Safety
import TellyDB.Lib.LinkedSegment
import TellyDB.Utils.LinkedList
import TellyDB.Utils.LinkedList.Linked
import TellyDB.Utils.LinkedList.Deque
import TellyDB.Commands.ListCommands
import TellyDB.Commands.ListCommands.Integrity
import TellyDB.Resp.Replies
import TellyDB.Server.State
import TellyDB.Server.Clients
import TellyDB.Commands.SessionCommands
import TellyDB.Server.Pipeline
import TellyDB.Server.Effects
import TellyDB.Server.Frame
import TellyDB.Server.ReplyIntegrity
import TellyDB.Server.Speech
import TellyDB.Server.ExecReplies
import TellyDB.Server.Attachment
import TellyDB.Server.Isolation
import TellyDB.Server.History
import TellyDB.Server.SendingOrder
import TellyDB.Server.Sessions
import TellyDB.Server.SessionOrder
import TellyDB.Server.Grouping
import TellyDB.Server.PasswordEffects
import TellyDB.Commands.PermissionStrings
import TellyDB.Server.PasswordMemory
import TellyDB.Server.PasswordRemoval
import TellyDB.Resp.Integers
import TellyDB.Resp.Decimals
import TellyDB.Resp.Doubles
import TellyDB.Resp.Inline
import TellyDB.Lib.Floating.Truncation
import TellyDB.Server.BlockOwnership.Ownership
import TellyDB.Lib.Tally
import TellyDB.Io.Delivery
import TellyDB.Server.Reader.Stability
import TellyDB.Server.Reader.Pipelining
import TellyDB.Server.ClientTable.Lookup
import TellyDB.Server.ClientTable.Totality
import TellyDB.Server.ReplyOrder
import TellyDB.Server.FullAccess
import TellyDB.Server.Revocation
import TellyDB.Database.Databases.Uniqueness
import TellyDB.Database.Read.Bytes.Delivery
import TellyDB.Database.Read.Source
import TellyDB.Database.Read.Authorization
import TellyDB.Database.File.Blocks.Content
import TellyDB.Database.File.Save.Emission
import TellyDB.Database.File.Save.Trace
import TellyDB.Database.File.Save.Failure
import TellyDB.Database.File.Size
import TellyDB.Database.Codec.Survival
import TellyDB.Database.Codec.Authorization
import TellyDB.Database.Codec.Buffer
import TellyDB.Database.Read.File
import TellyDB.Database.Codec.Consumption
import TellyDB.Database.Codec.Opening
import TellyDB.Database.Codec.OneBlock
import TellyDB.Database.Codec.Persistence
import TellyDB.Database.Codec.Stopping
import TellyDB.Commands.Data.Expiries
import TellyDB.Commands.Data.Collections
import TellyDB.Commands.Data.Limits
import TellyDB.Commands.Data.Fields
import TellyDB.Commands.Data.Deletions
import TellyDB.Commands.Data.Renaming
import TellyDB.Commands.Data.Confidentiality
import TellyDB.Server.Reader.Decoding
import TellyDB.Server.Reader.Inline
import TellyDB.Server.Reader.InlineBounds
import TellyDB.Server.Reader.Termination
import TellyDB.Server.Reader.Scanning
import TellyDB.Server.Reader.Views
import TellyDB.Server.Reader.Prospects
import TellyDB.Server.Reader.Returning
import TellyDB.Server.Reader.Window
import TellyDB.Commands.Data.RangeReplies
import TellyDB.Commands.Data.Pushes
import TellyDB.Commands.Data.Settings
import TellyDB.Commands.Data.OptionGrammar
import TellyDB.Commands.Data.Typing
import TellyDB.Lib.Floating
import TellyDB.Database.Doubles
import TellyDB.Commands.Data.Increments
import TellyDB.Lib.Writers
import TellyDB.Resp.Elements
import TellyDB.Commands.TableReplies
import TellyDB.Commands.TableListings
import TellyDB.Lib.Regions
import TellyDB.Lib.References
import TellyDB.Lib.ByteMemory
import TellyDB.Commands.Atoull
import TellyDB.Utils.Arena
import TellyDB.Server.Autosave
import TellyDB.Utils.ThreadQueue.Sequential
import TellyDB.Io.Placement
import TellyDB.Server.QueryBuffers
import TellyDB.Database.Read.Initial
import TellyDB.Utils.Logging
import TellyDB.Utils.Logging.Ring
import TellyDB.Utils.Config
import TellyDB.Utils.Config.Lines
import TellyDB.Utils.Config.RoundTrip
import TellyDB.Utils.Config.Independence
import TellyDB.Utils.Ltoa.Words
import TellyDB.Commands.Literals
import TellyDB.Server.Departure.Blocks
import TellyDB.Commands.Data.BackgroundSave.Snapshot
import TellyDB.Lib.Bisimulation
import TellyDB.Utils.LinkedList.Loose
import TellyDB.Commands.ListCommands.Refinement
import TellyDB.Transactions.Thread
import TellyDB.Transactions.Steps
import TellyDB.Transactions.Delivery
import TellyDB.Lib.Histories
import TellyDB.Server.Serializability
