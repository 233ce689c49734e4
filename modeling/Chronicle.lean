import Chronicle.Body
import Chronicle.Bytes
import Chronicle.Calendar
import Chronicle.Codec
import Chronicle.Command.Arguments
import Chronicle.Command.DatabaseName
import Chronicle.Command.FileTree
import Chronicle.Command.Help
import Chronicle.Command.Host
import Chronicle.Command.Report
import Chronicle.Command.Run
import Chronicle.Config
import Chronicle.Decimal.Binary64
import Chronicle.Decimal.Notation
import Chronicle.Decimal.Shortest
import Chronicle.EventStore
import Chronicle.Frame
import Chronicle.Import.Config
import Chronicle.Import.Document
import Chronicle.Import.Error
import Chronicle.Import.Importer
import Chronicle.Import.Recognizer
import Chronicle.Import.Rejection
import Chronicle.Json
import Chronicle.Json.Number
import Chronicle.Json.Path
import Chronicle.Json.Reader
import Chronicle.KeyRange
import Chronicle.Main
import Chronicle.Payload
import Chronicle.Power
import Chronicle.Proofs.Body
import Chronicle.Proofs.Body.Size
import Chronicle.Proofs.Bytes
import Chronicle.Proofs.Calendar
import Chronicle.Proofs.Codec.Canonical
import Chronicle.Proofs.Codec.RoundTrip
import Chronicle.Proofs.Config.Bridge
import Chronicle.Proofs.Config.Fill
import Chronicle.Proofs.Config.Listing
import Chronicle.Proofs.Config.Upgrade
import Chronicle.Proofs.Decimal.Binary64
import Chronicle.Proofs.EventStore.Clients
import Chronicle.Proofs.EventStore.Coherence
import Chronicle.Proofs.EventStore.Course
import Chronicle.Proofs.EventStore.Deletion
import Chronicle.Proofs.EventStore.Drop
import Chronicle.Proofs.EventStore.Entry
import Chronicle.Proofs.EventStore.History
import Chronicle.Proofs.EventStore.Import
import Chronicle.Proofs.EventStore.Importing
import Chronicle.Proofs.EventStore.Policy
import Chronicle.Proofs.EventStore.Requests
import Chronicle.Proofs.EventStore.Run
import Chronicle.Proofs.Frame
import Chronicle.Proofs.Frame.Delimited
import Chronicle.Proofs.Frame.Layout
import Chronicle.Proofs.Import.Content
import Chronicle.Proofs.Import.Entry
import Chronicle.Proofs.Import.Lowering
import Chronicle.Proofs.Import.Partition
import Chronicle.Proofs.Import.Recognizer
import Chronicle.Proofs.Import.Spelling
import Chronicle.Proofs.Import.Validation
import Chronicle.Proofs.Json.Ordered
import Chronicle.Proofs.Json.Path
import Chronicle.Proofs.KeyRange
import Chronicle.Proofs.Keyed
import Chronicle.Proofs.Ledger
import Chronicle.Proofs.Outcome
import Chronicle.Proofs.Payload
import Chronicle.Proofs.Payload.Steps
import Chronicle.Proofs.RecordKey
import Chronicle.Proofs.RecordKey.Order
import Chronicle.Proofs.RecordKey.Span
import Chronicle.Proofs.Records
import Chronicle.Proofs.Records.Step
import Chronicle.Proofs.Registry
import Chronicle.Proofs.Registry.Calls
import Chronicle.Proofs.Registry.Climb
import Chronicle.Proofs.Registry.Upgrade
import Chronicle.Proofs.Scan
import Chronicle.Proofs.Scan.Resume
import Chronicle.Proofs.Scan.Step
import Chronicle.Proofs.Schema
import Chronicle.Proofs.SortedMap
import Chronicle.Proofs.Storage
import Chronicle.Proofs.Storage.Agreement
import Chronicle.Proofs.Storage.Isolation
import Chronicle.Proofs.Storage.Reading
import Chronicle.Proofs.Storage.Reference
import Chronicle.Proofs.Storage.Session
import Chronicle.Proofs.Table
import Chronicle.Proofs.Timestamp.Display
import Chronicle.Proofs.Timestamp.Lexeme
import Chronicle.Proofs.Timestamp.Reading
import Chronicle.Proofs.Timestamp.Rfc3339
import Chronicle.Proofs.Toml.Datum
import Chronicle.Proofs.Toml.Ordered
import Chronicle.Proofs.Value.Coercion
import Chronicle.Proofs.Wire
import Chronicle.Proofs.Wire.Size
import Chronicle.Record
import Chronicle.RecordError
import Chronicle.RecordKey
import Chronicle.Records
import Chronicle.Registry
import Chronicle.Scan
import Chronicle.Schema
import Chronicle.Schema.Toml
import Chronicle.SortedMap
import Chronicle.Storage
import Chronicle.Storage.Image
import Chronicle.StoreConfig
import Chronicle.StoreError
import Chronicle.Table
import Chronicle.Text.Blank
import Chronicle.Text.Pieces
import Chronicle.Text.Quoted
import Chronicle.Text.Visible
import Chronicle.Timestamp
import Chronicle.Timestamp.Display
import Chronicle.Timestamp.Lexeme
import Chronicle.Timestamp.Parts
import Chronicle.Timestamp.Pattern
import Chronicle.Timestamp.Reading
import Chronicle.Timestamp.Rfc3339
import Chronicle.Toml
import Chronicle.Toml.Decode
import Chronicle.Toml.Moment
import Chronicle.Toml.Quoted
import Chronicle.Toml.Reader
import Chronicle.Toml.Scalar
import Chronicle.Toml.Tables
import Chronicle.Value
import Chronicle.Value.Json
import Chronicle.Value.Toml
import Chronicle.Wire.Digest
import Chronicle.Wire.Element
import Chronicle.Wire.Varint
