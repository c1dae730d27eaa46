import Depot.Atom
import Depot.Blob.Memory
import Depot.Blob.Provider
import Depot.Blob.RecordBucket
import Depot.Blob.Xxh3
import Depot.Codec
import Depot.Config
import Depot.Dict
import Depot.Error
import Depot.Filter.Basic
import Depot.Filter.Predicate
import Depot.Filter.Visitor
import Depot.Format
import Depot.Json.Outline
import Depot.Json.Number
import Depot.Json.Reader
import Depot.Json.Writer
import Depot.KeyValue.Memory
import Depot.KeyValue.Metered
import Depot.KeyValue.Provider
import Depot.KeyValue.RecordStore
import Depot.MessagePack.Reader
import Depot.MessagePack.Writer
import Depot.Number.Binary32
import Depot.Number.Binary64
import Depot.Number.Decimal
import Depot.Number.Literal
import Depot.Number.Power
import Depot.Proofs.BatchHooks
import Depot.Proofs.Batches
import Depot.Proofs.Blob.Holding
import Depot.Proofs.Blob.Hookless
import Depot.Proofs.Blob.Info
import Depot.Proofs.Blob.Listing
import Depot.Proofs.Blob.Memory
import Depot.Proofs.Blob.Named
import Depot.Proofs.Blob.RecordBucket
import Depot.Proofs.Codec
import Depot.Proofs.DeadContexts
import Depot.Proofs.Dict.Lookup
import Depot.Proofs.Dict.Prefix
import Depot.Proofs.Fallible
import Depot.Proofs.Filter.Agreement
import Depot.Proofs.Filter.Algebra
import Depot.Proofs.Filter.Comparisons
import Depot.Proofs.Filter.Compile
import Depot.Proofs.Filter.Support
import Depot.Proofs.Json.Float
import Depot.Proofs.Json.Number
import Depot.Proofs.Json.RoundTrip
import Depot.Proofs.Json.Text
import Depot.Proofs.KeyValue.Defaults
import Depot.Proofs.KeyValue.Holding
import Depot.Proofs.KeyValue.Hookless
import Depot.Proofs.KeyValue.Ledger
import Depot.Proofs.KeyValue.Listing
import Depot.Proofs.KeyValue.Memory
import Depot.Proofs.KeyValue.Named
import Depot.Proofs.KeyValue.Paging
import Depot.Proofs.KeyValue.RecordStore
import Depot.Proofs.KeyValue.Run
import Depot.Proofs.MessagePack.Forms
import Depot.Proofs.MessagePack.RoundTrip
import Depot.Proofs.MessagePack.Streams
import Depot.Proofs.Number.Arithmetic
import Depot.Proofs.Number.Digits
import Depot.Proofs.Number.Exact
import Depot.Proofs.Number.Monotone
import Depot.Proofs.Number.Rounding
import Depot.Proofs.Number.Shortest
import Depot.Proofs.Record.Atoms
import Depot.Proofs.Record.Batch
import Depot.Proofs.Record.Conversion
import Depot.Proofs.Record.Described
import Depot.Proofs.Record.Edits
import Depot.Proofs.Record.Faithful
import Depot.Proofs.Record.Hookless
import Depot.Proofs.Record.Hooks
import Depot.Proofs.Record.Keeping
import Depot.Proofs.Record.Layout
import Depot.Proofs.Record.Named
import Depot.Proofs.Record.Outcome
import Depot.Proofs.Record.Placement
import Depot.Proofs.Record.ReadBack
import Depot.Proofs.Record.Reading
import Depot.Proofs.Record.Reread
import Depot.Proofs.Record.Row
import Depot.Proofs.Record.Standard
import Depot.Proofs.Record.Views
import Depot.Proofs.Record.Write
import Depot.Proofs.Record.Written
import Depot.Proofs.Relational.Acceptance
import Depot.Proofs.Relational.Arrangement
import Depot.Proofs.Relational.Commit
import Depot.Proofs.Relational.Comparison
import Depot.Proofs.Relational.Connection
import Depot.Proofs.Relational.Constraints
import Depot.Proofs.Relational.Content
import Depot.Proofs.Relational.History
import Depot.Proofs.Relational.Holding
import Depot.Proofs.Relational.Hookless
import Depot.Proofs.Relational.KeyTexts
import Depot.Proofs.Relational.Keys
import Depot.Proofs.Relational.LostUpdate
import Depot.Proofs.Relational.Named
import Depot.Proofs.Relational.Overwriting
import Depot.Proofs.Relational.OwnTransaction
import Depot.Proofs.Relational.Paging
import Depot.Proofs.Relational.Readable
import Depot.Proofs.Relational.RecordTable
import Depot.Proofs.Relational.Replacement
import Depot.Proofs.Relational.Rows
import Depot.Proofs.Relational.Sameness
import Depot.Proofs.Relational.Serializability
import Depot.Proofs.Relational.Snapshot
import Depot.Proofs.Relational.Sorting
import Depot.Proofs.Relational.Statement
import Depot.Proofs.Relational.System
import Depot.Proofs.Relational.Table
import Depot.Proofs.Relational.Twins
import Depot.Proofs.Relational.Uncommitted
import Depot.Proofs.Relational.Usage
import Depot.Proofs.Session.Alike
import Depot.Proofs.Session.Barred
import Depot.Proofs.Session.Call
import Depot.Proofs.Session.Each
import Depot.Proofs.Session.History
import Depot.Proofs.Session.Mirror
import Depot.Proofs.Session.Quiet
import Depot.Proofs.Session.Run
import Depot.Proofs.Spec.Declaration
import Depot.Proofs.Statement.Binding
import Depot.Proofs.Statement.Refusal
import Depot.Proofs.Text.Pattern
import Depot.Proofs.Text.Positions
import Depot.Proofs.Value.Arrange
import Depot.Proofs.Value.Coherence
import Depot.Proofs.Value.Compare
import Depot.Proofs.Value.Leaves
import Depot.Proofs.Value.Merging
import Depot.Proofs.Value.Order
import Depot.Proofs.Value.Plain
import Depot.Proofs.Value.Reflexive
import Depot.Proofs.Vector.Holding
import Depot.Proofs.Vector.Hookless
import Depot.Proofs.Vector.Memory
import Depot.Proofs.Vector.Named
import Depot.Proofs.Vector.Partition
import Depot.Proofs.Vector.RecordIndex
import Depot.Proofs.Vector.Search
import Depot.Proofs.Vector.Shape
import Depot.Proofs.Vector.Shelf
import Depot.Proofs.Vector.Unsupported
import Depot.Record.Catalog
import Depot.Record.Layout
import Depot.Record.Model
import Depot.Relational.Database
import Depot.Relational.Executor
import Depot.Relational.RecordTable
import Depot.Relational.RowKey
import Depot.Relational.RowOrder
import Depot.Relational.Table
import Depot.Role
import Depot.Session
import Depot.Spec.Basic
import Depot.Spec.Field
import Depot.Spec.Registry
import Depot.Statement.Basic
import Depot.Statement.Bind
import Depot.Statement.Evaluate
import Depot.Text.Base64
import Depot.Text.Hex
import Depot.Text.Pattern
import Depot.Text.Quoted
import Depot.Text.Unshown
import Depot.Text.Utf8
import Depot.Value.Basic
import Depot.Value.Compare
import Depot.Value.Describe
import Depot.Value.Interchange
import Depot.Vector.Alarmed
import Depot.Vector.Memory
import Depot.Vector.Metric
import Depot.Vector.Provider
import Depot.Vector.RecordIndex
