import NoteGraph.Text.Property
import NoteGraph.Text.DecimalDigit
import NoteGraph.Text.WordCharacter
import NoteGraph.Text.Printable
import NoteGraph.Text.Lowercase
import NoteGraph.Text.Blank
import NoteGraph.Text.Readings
import NoteGraph.Text.Quoted
import NoteGraph.Number.Rounding
import NoteGraph.Number.Binary64
import NoteGraph.Number.Numeral
import NoteGraph.Number.Shortest
import NoteGraph.Number.Layout
import NoteGraph.Number.Basic
import NoteGraph.Json.Basic
import NoteGraph.Json.Printer
import NoteGraph.Json.Reader
import NoteGraph.Language.Name
import NoteGraph.Language.Span
import NoteGraph.Language.Fence
import NoteGraph.Language.Heading
import NoteGraph.Language.Attribute
import NoteGraph.Language.Relation
import NoteGraph.Language.Mindmap
import NoteGraph.Language.LineKind
import NoteGraph.Operation.Basic
import NoteGraph.Operation.Session
import NoteGraph.Language.Blocks
import NoteGraph.Language.Outline
import NoteGraph.Language.Statement
import NoteGraph.Operation.OfText
import NoteGraph.Graph.Basic
import NoteGraph.Graph.Assembly
import NoteGraph.Graph.Registry
import NoteGraph.Schema.Basic
import NoteGraph.Schema.Vocabulary
import NoteGraph.Schema.Block
import NoteGraph.Schema.Validation
import NoteGraph.Log.Basic
import NoteGraph.Compile
import NoteGraph.Number.Quantity
import NoteGraph.Net.EntryOrder
import NoteGraph.Net.Basic
import NoteGraph.Net.Topology
import NoteGraph.Net.Books
import NoteGraph.Net.OfGraph
import NoteGraph.Role
import NoteGraph.Net.RowSort
import NoteGraph.Net.Builder
import NoteGraph.Engine.Basic
import NoteGraph.Engine.Reachability
import NoteGraph.Engine.Simulation
import NoteGraph.Keyed
import NoteGraph.Calendar.Date
import NoteGraph.Calendar.IsoText
import NoteGraph.Ledger.Period
import NoteGraph.Ledger.Basic
import NoteGraph.Ledger.Amount
import NoteGraph.Ledger.OfText
import NoteGraph.Ledger.Balance
import NoteGraph.Ledger.Summary
import NoteGraph.Log.Level
import NoteGraph.Settings.Field
import NoteGraph.Settings.Basic
import NoteGraph.Operation.OfJson
import NoteGraph.Language.Fields
import NoteGraph.Schema.Fields
import NoteGraph.Calendar.Instant
import NoteGraph.Json.Plain
import NoteGraph.Log.Template
import NoteGraph.Log.Record
import NoteGraph.Log.Output
import NoteGraph.Text.Similarity
import NoteGraph.CommandLine.Arguments
import NoteGraph.CommandLine.Command
import NoteGraph.CommandLine.Surroundings
import NoteGraph.CommandLine.Run
import NoteGraph.Main
import NoteGraph.Proofs.Number.Rounding
import NoteGraph.Proofs.Number.Order
import NoteGraph.Proofs.Net.Marking
import NoteGraph.Proofs.Net.OfGraph
import NoteGraph.Proofs.Engine.Firing
import NoteGraph.Proofs.Engine.Reachability
import NoteGraph.Proofs.Engine.Sharp
import NoteGraph.Proofs.Engine.Counts
import NoteGraph.Proofs.Number.Whole
import NoteGraph.Proofs.Engine.StateEquation
import NoteGraph.Proofs.Number.Canonical
import NoteGraph.Proofs.Operation.Session
import NoteGraph.Proofs.Operation.Stream
import NoteGraph.Proofs.Operation.Reference
import NoteGraph.Proofs.Operation.Grounded
import NoteGraph.Proofs.Graph.Firsts
import NoteGraph.Proofs.Graph.Assembly
import NoteGraph.Proofs.Graph.OfText
import NoteGraph.Proofs.Graph.Replay
import NoteGraph.Proofs.Graph.Nodes
import NoteGraph.Proofs.Graph.Links
import NoteGraph.Proofs.Graph.References
import NoteGraph.Proofs.Graph.Closed
import NoteGraph.Proofs.Graph.Morphs
import NoteGraph.Proofs.Engine.DoubleEntry
import NoteGraph.Proofs.Net.Building
import NoteGraph.Proofs.Net.OfText
import NoteGraph.Proofs.Language.Fenced
import NoteGraph.Proofs.Language.Scanning
import NoteGraph.Proofs.Text.Trailing
import NoteGraph.Proofs.Language.Trailing
import NoteGraph.Proofs.Language.Lines
import NoteGraph.Proofs.Operation.Fences
import NoteGraph.Proofs.Operation.LineEnds
import NoteGraph.Proofs.Operation.SingleLines
import NoteGraph.Proofs.Number.SameValue
import NoteGraph.Proofs.Operation.Grants
import NoteGraph.Proofs.Net.Checked
import NoteGraph.Proofs.Operation.ParallelGrants
import NoteGraph.Proofs.Net.Opening
import NoteGraph.Proofs.Engine.Resets
import NoteGraph.Proofs.Ledger.Balances
import NoteGraph.Proofs.Calendar.IsoText
import NoteGraph.Proofs.Engine.BookingOrder
import NoteGraph.Proofs.Engine.FreshStart
import NoteGraph.Proofs.Engine.OrderOfBlocks
import NoteGraph.Proofs.Ledger.Amount
import NoteGraph.Proofs.Ledger.RoundTrip
import NoteGraph.Proofs.Net.SameShape
import NoteGraph.Proofs.Net.UpToDate
import NoteGraph.Proofs.Graph.Registry
import NoteGraph.Proofs.Graph.RegistryTotals
import NoteGraph.Proofs.Graph.Visibility
import NoteGraph.Proofs.Language.BlankLines
import NoteGraph.Proofs.Operation.OfPassages
import NoteGraph.Proofs.Operation.BlankLines
import NoteGraph.Proofs.Operation.Mentions
import NoteGraph.Proofs.Operation.Told
import NoteGraph.Proofs.Operation.Placeholders
import NoteGraph.Proofs.Schema.Ancestors
import NoteGraph.Proofs.Schema.Findings
import NoteGraph.Proofs.Schema.Domains
import NoteGraph.Proofs.Schema.Spellings
import NoteGraph.Proofs.Ledger.Categories
import NoteGraph.Proofs.Schema.Fields
import NoteGraph.Proofs.Schema.Lines
import NoteGraph.Proofs.Operation.Named
import NoteGraph.Proofs.Search
import NoteGraph.Proofs.Net.ParallelArcs
import NoteGraph.Proofs.Net.Flow
import NoteGraph.Proofs.Net.Topology
import NoteGraph.Proofs.Language.Blocks
import NoteGraph.Proofs.Operation.Mindmap
import NoteGraph.Proofs.Graph.Idempotent
import NoteGraph.Proofs.Number.Monotone
import NoteGraph.Proofs.Engine.InTurn
import NoteGraph.Proofs.Engine.Tallies
import NoteGraph.Proofs.Engine.MoreTokens
import NoteGraph.Proofs.Language.Outline
import NoteGraph.Proofs.Operation.Scopes
import NoteGraph.Proofs.Language.Headings
import NoteGraph.Proofs.Number.Nearest
import NoteGraph.Proofs.Language.Relations
import NoteGraph.Proofs.Schema.Merging
import NoteGraph.Proofs.Language.Remainders
import NoteGraph.Proofs.Language.Attributes
import NoteGraph.Proofs.Calendar.DayNumber
import NoteGraph.Proofs.Ledger.Dates
import NoteGraph.Proofs.Schema.Blocks
import NoteGraph.Proofs.Ledger.Periods
import NoteGraph.Proofs.Ledger.LeadingNumeral
import NoteGraph.Proofs.Ledger.LineClasses
import NoteGraph.Proofs.Schema.Consolidations
import NoteGraph.Proofs.Schema.Quoting
import NoteGraph.Proofs.Text.Words
import NoteGraph.Proofs.Language.Names
import NoteGraph.Proofs.Ledger.LongestNumeral
import NoteGraph.Proofs.Number.FarApart
import NoteGraph.Proofs.Ledger.TwoReaders
