import Registrar.Text.Blank
import Registrar.Text.Digits
import Registrar.Text.Segments
import Registrar.Text.LowerCase
import Registrar.Double.Basic
import Registrar.Double.Shortest
import Registrar.Double.Text
import Registrar.Text.Integer
import Registrar.Uuid
import Registrar.Value.Basic
import Registrar.Value.Equality
import Registrar.Value.Order
import Registrar.Value.Json
import Registrar.Outcome
import Registrar.Schema.Basic
import Registrar.Schema.Path
import Registrar.Calendar
import Registrar.Search.Operand
import Registrar.Filter.Basic
import Registrar.Filter.Evaluate
import Registrar.Store.Query
import Registrar.Search.Inquiry
import Registrar.Search.Reading
import Registrar.Search.Filtering
import Registrar.Search.SortPlan
import Registrar.Search.Paging
import Registrar.Change.Difference
import Registrar.Change.Partial
import Registrar.Store.Update
import Registrar.Store.Basic
import Registrar.Store.Call
import Registrar.Entity.Reading
import Registrar.Entity.Kind
import Registrar.Directory.Book
import Registrar.Directory.Category
import Registrar.Directory.Contact
import Registrar.Directory.Inquiry
import Registrar.Engine.Program
import Registrar.Engine.Policy
import Registrar.Engine.Following
import Registrar.Engine.Settings
import Registrar.Engine.Collection
import Registrar.Engine.Write
import Registrar.Engine.Read
import Registrar.Text.Replace
import Registrar.Text.Base64
import Registrar.Text.Quoted
import Registrar.Text.Ranges
import Registrar.Text.ShapeTable
import Registrar.Value.Unsigned
import Registrar.Decimal128
import Registrar.Value.Spelling
import Registrar.Entity.Form
import Registrar.Dialect.Key
import Registrar.Dialect.Condition
import Registrar.Dialect.Statement
import Registrar.Engine.Session
import Registrar.Directory.Filing
import Registrar.Value.Tagged
import Registrar.Store.Record
import Registrar.Schema.Record
import Registrar.Proofs.Program.Runs
import Registrar.Proofs.Program.Requests
import Registrar.Proofs.Store.Writing
import Registrar.Proofs.Store.Keyed
import Registrar.Proofs.Change.Fields
import Registrar.Proofs.Engine.Reading
import Registrar.Proofs.Engine.Operations
import Registrar.Proofs.Double.Rounding
import Registrar.Proofs.Double.Whole
import Registrar.Proofs.Program.Interleaving
import Registrar.Proofs.Engine.Versions
import Registrar.Proofs.Engine.Guarded
import Registrar.Proofs.Engine.Finding
import Registrar.Proofs.Engine.LostUpdates
import Registrar.Proofs.Value.Sorting
import Registrar.Proofs.Program.Telling
import Registrar.Proofs.Value.Ordering
import Registrar.Proofs.Search.Order
import Registrar.Proofs.Search.Pages
import Registrar.Proofs.Engine.Hydrating
import Registrar.Proofs.Entity.Readers
import Registrar.Proofs.Directory.Readable
import Registrar.Proofs.Engine.Pruning
import Registrar.Proofs.Engine.Effects
import Registrar.Proofs.Change.Planned
import Registrar.Proofs.Engine.Written
import Registrar.Proofs.Store.Names
import Registrar.Proofs.Engine.Names
import Registrar.Proofs.Directory.Kinds
import Registrar.Proofs.Engine.Following
import Registrar.Proofs.Engine.Searching
import Registrar.Proofs.Engine.SearchWays
import Registrar.Proofs.Directory.Steps
import Registrar.Proofs.Directory.UniqueNames
import Registrar.Proofs.Engine.References
import Registrar.Proofs.Directory.References
import Registrar.Proofs.Store.Parts
import Registrar.Proofs.Store.Misses
import Registrar.Proofs.Program.Careful
import Registrar.Proofs.Program.CarefulTurns
import Registrar.Proofs.Change.Fieldwise
import Registrar.Proofs.Change.Deltas
import Registrar.Proofs.Engine.Submitted
import Registrar.Proofs.Engine.Slots
import Registrar.Proofs.Engine.Spoiling
import Registrar.Proofs.Engine.Ceiling
import Registrar.Proofs.Engine.Deltas
import Registrar.Proofs.Engine.Failures
import Registrar.Proofs.Directory.Counts
import Registrar.Proofs.Directory.Slots
import Registrar.Proofs.Directory.Spoiling
import Registrar.Proofs.Directory.Deltas
import Registrar.Proofs.Directory.Failures
import Registrar.Proofs.Engine.Shared
import Registrar.Proofs.Engine.Incarnations
import Registrar.Proofs.Engine.Hiding
import Registrar.Proofs.Engine.Copies
import Registrar.Proofs.Engine.Revealing
import Registrar.Proofs.Engine.Identity
import Registrar.Proofs.Directory.Identity
import Registrar.Proofs.Engine.Signatures
import Registrar.Proofs.Directory.AuditTrail
import Registrar.Proofs.Text.Times
import Registrar.Proofs.Value.Agreement
import Registrar.Proofs.Entity.Recovering
import Registrar.Proofs.Entity.Respelling
import Registrar.Proofs.Entity.Exchanging
import Registrar.Proofs.Directory.Attributes
import Registrar.Proofs.Engine.Columns
import Registrar.Proofs.Directory.Columns
import Registrar.Proofs.Engine.Rereading
import Registrar.Proofs.Directory.Replacing
import Registrar.Proofs.Engine.Resaving
import Registrar.Proofs.Directory.Resaving
import Registrar.Proofs.Dialect.Translating
import Registrar.Proofs.Text.Marks
import Registrar.Proofs.Dialect.Keys
import Registrar.Proofs.Dialect.MappedKeys
import Registrar.Proofs.Dialect.Stored
import Registrar.Proofs.Dialect.Encoding
import Registrar.Proofs.Program.Mirroring
import Registrar.Proofs.Engine.Alike
import Registrar.Proofs.Engine.Traces
import Registrar.Proofs.Program.Refusing
import Registrar.Proofs.Engine.Missing
import Registrar.Proofs.Program.Discreet
import Registrar.Proofs.Engine.Discretion
import Registrar.Proofs.Change.Paths
import Registrar.Proofs.Change.Conflicts
import Registrar.Proofs.Directory.Restoring
import Registrar.Proofs.Change.Declared
import Registrar.Proofs.Engine.Dangling
import Registrar.Proofs.Engine.Relinking
import Registrar.Proofs.Directory.Relinking
import Registrar.Proofs.Engine.Listed
import Registrar.Proofs.Directory.Listed
import Registrar.Proofs.Search.Complements
import Registrar.Proofs.Search.Meaning
import Registrar.Proofs.Engine.Batches
import Registrar.Proofs.Engine.Settling
import Registrar.Proofs.Engine.Referring
import Registrar.Proofs.Directory.Settling
import Registrar.Proofs.Engine.Answered
import Registrar.Proofs.Engine.Marked
import Registrar.Proofs.Search.Sought
import Registrar.Proofs.Directory.Restricting
import Registrar.Proofs.Engine.Adding
import Registrar.Proofs.Directory.Seeking
import Registrar.Proofs.Value.Equivalence
import Registrar.Proofs.Change.Converging
import Registrar.Proofs.Value.Preorder
import Registrar.Proofs.Value.Tournament
import Registrar.Proofs.Search.Sorted
import Registrar.Proofs.Value.Integers
import Registrar.Proofs.Store.Lens
import Registrar.Proofs.Store.Counting
import Registrar.Proofs.Engine.Growing
import Registrar.Proofs.Text.Joining
import Registrar.Proofs.Schema.Canonical
import Registrar.Proofs.Search.Limits
import Registrar.Proofs.Store.Unordered
import Registrar.Proofs.Double.Nearest
import Registrar.Proofs.Double.Decimals
import Registrar.Proofs.Double.Texts
import Registrar.Proofs.Search.Numbers
import Registrar.Proofs.Dialect.Legal
