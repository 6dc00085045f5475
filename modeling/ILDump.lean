import ILDump.Body.Code
import ILDump.Body.Opcode
import ILDump.Bytes
import ILDump.CommandLine.Grammar
import ILDump.CommandLine.Options
import ILDump.CommandLine.Run
import ILDump.Container.Executable
import ILDump.Container.Fault
import ILDump.Decimal.Float
import ILDump.Diagnosis
import ILDump.Disassembler
import ILDump.Listing.ByteRows
import ILDump.Listing.Identifier
import ILDump.Listing.MemberOrder
import ILDump.Listing.Output
import ILDump.Listing.Writer
import ILDump.Main
import ILDump.Metadata.Flags
import ILDump.Metadata.Heap
import ILDump.Metadata.RawTables
import ILDump.Metadata.Root
import ILDump.Metadata.Schema
import ILDump.Metadata.Tables
import ILDump.Metadata.Token
import ILDump.Module.Attachments
import ILDump.Module.Constant
import ILDump.Module.Fault
import ILDump.Module.Loader
import ILDump.Module.Model
import ILDump.Module.Naming
import ILDump.Module.Source
import ILDump.Path
import ILDump.Pipeline.Destination
import ILDump.Pipeline.Local
import ILDump.Pipeline.Run
import ILDump.Pipeline.Stage
import ILDump.Proofs.Listing.Completeness
import ILDump.Proofs.Listing.Overloads
import ILDump.Proofs.Text.Joined
import ILDump.Proofs.Text.Pieces
import ILDump.Proofs.Listing.Rearrangement
import ILDump.Proofs.Module.Types
import ILDump.Proofs.Pipeline.CombinedRuns
import ILDump.Proofs.Pipeline.Destinations
import ILDump.Proofs.Pipeline.Guarantees
import ILDump.Proofs.Signature.RoundTrip
import ILDump.Proofs.Workspace.Searches
import ILDump.Search.Below
import ILDump.Search.Glyph
import ILDump.Search.Pattern
import ILDump.Settings.Lookup
import ILDump.Shell.Format
import ILDump.Shell.Machine
import ILDump.Shell.Reader
import ILDump.Shell.Run
import ILDump.Shell.Syntax
import ILDump.Signature.Cursor
import ILDump.Signature.Fault
import ILDump.Signature.Grammar
import ILDump.Signature.Type
import ILDump.Text.Digits
import ILDump.Text.LineEnds
import ILDump.Text.Quoted
import ILDump.Text.Utf16
import ILDump.Text.Utf8
import ILDump.Tool.Basic
import ILDump.Tool.Launch
import ILDump.Tool.Local
import ILDump.Unicode.Alphanumeric
import ILDump.Unicode.Blank
import ILDump.Unicode.Case
import ILDump.Unicode.Decimal
import ILDump.Unicode.Printable
import ILDump.Value
import ILDump.Value.Reader
import ILDump.Workspace.Session
import ILDump.Workspace.Tree
import ILDump.Workspace.Work
import ILDump.Proofs.Listing.Blocks
import ILDump.Proofs.Listing.Balance
import ILDump.Proofs.Listing.Orders
import ILDump.Proofs.Settings.Loads
import ILDump.Proofs.Settings.Snapshots
import ILDump.Module.Recall
import ILDump.Module.Queries
import ILDump.Proofs.Module.Recall
import ILDump.Proofs.Module.Queries
import ILDump.Proofs.Signature.Locality
import ILDump.Proofs.Module.Attached
import ILDump.Proofs.Module.RowOrder
import ILDump.Proofs.Module.Endless
import ILDump.Proofs.Disassembler.Atomicity
import ILDump.Proofs.Body.Addresses
import ILDump.Proofs.Listing.Labels
import ILDump.Proofs.Tool.Searches
import ILDump.Proofs.Tool.Turns
import ILDump.Proofs.Tool.Sessions
import ILDump.Proofs.Pipeline.Mirroring
import ILDump.Proofs.Disassembler.Agreement
import ILDump.Proofs.CommandLine.Choices
import ILDump.Proofs.CommandLine.Chronicle
import ILDump.Proofs.Pipeline.Inputs
import ILDump.Proofs.CommandLine.Runs
import ILDump.Proofs.CommandLine.ExitStatus
import ILDump.Proofs.Signature.TypeTokens
import ILDump.Proofs.Signature.Placement
import ILDump.Proofs.Signature.Modifiers
import ILDump.Proofs.Signature.Texts
import ILDump.Proofs.Module.TokenOrder
import ILDump.Proofs.Signature.Widths
import ILDump.Proofs.Module.FullNames
import ILDump.Proofs.Module.MemberTexts
import ILDump.Proofs.Text.Escapes
import ILDump.Proofs.Text.Numerals
import ILDump.Proofs.Text.LineFeeds
import ILDump.Proofs.Listing.Identifiers
import ILDump.Proofs.Listing.LineFeeds
import ILDump.Proofs.Pipeline.Spellings
import ILDump.Proofs.Metadata.Columns
import ILDump.Proofs.Module.SideTables
import ILDump.Proofs.Text.Literals
import ILDump.Proofs.Text.Utf16
import ILDump.Proofs.Module.Constants
import ILDump.Proofs.Listing.ByteRows
import ILDump.Proofs.Text.Utf8
import ILDump.Proofs.Text.Trimming
import ILDump.Proofs.Text.LineEnds
import ILDump.Proofs.Settings.Files
import ILDump.Proofs.Settings.BareValues
import ILDump.Proofs.Signature.Progress
import ILDump.Proofs.Signature.NestedTypes
import ILDump.Proofs.Signature.Counts
