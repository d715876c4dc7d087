import NnetText.Command
import NnetText.Component.Attributes
import NnetText.Component.Basic
import NnetText.Component.Document
import NnetText.Component.Kind
import NnetText.Component.Normalization
import NnetText.Component.Promotion
import NnetText.Component.Synthesis
import NnetText.Conversion
import NnetText.Cursor
import NnetText.Directory
import NnetText.Duration
import NnetText.Json
import NnetText.Limits
import NnetText.Literal
import NnetText.Literal.Matrix
import NnetText.Literal.Scalar
import NnetText.Literal.Vector
import NnetText.Log.Code
import NnetText.Log.Event
import NnetText.Log.Journal
import NnetText.Log.Level
import NnetText.Log.Reading
import NnetText.Log.Setup
import NnetText.Log.Window
import NnetText.Main
import NnetText.Matrix
import NnetText.ModelFile
import NnetText.Moment
import NnetText.Notice
import NnetText.Number.Binary
import NnetText.Number.Decimal
import NnetText.Number.Fixed
import NnetText.Number.Integer
import NnetText.Number.Numeral
import NnetText.Number.Power
import NnetText.Number.Shortest
import NnetText.OrderedMap
import NnetText.ParseError
import NnetText.Position
import NnetText.Preferences.Basic
import NnetText.Preferences.Document
import NnetText.Proofs.Admission
import NnetText.Proofs.Ahead
import NnetText.Proofs.Announcements
import NnetText.Proofs.Blocks
import NnetText.Proofs.Bodies
import NnetText.Proofs.BrokenBodies
import NnetText.Proofs.Buffers
import NnetText.Proofs.Concatenation
import NnetText.Proofs.Constants
import NnetText.Proofs.Consumption
import NnetText.Proofs.Correspondence
import NnetText.Proofs.Decimals
import NnetText.Proofs.Diagnosis
import NnetText.Proofs.Documents
import NnetText.Proofs.Encoding
import NnetText.Proofs.Faults
import NnetText.Proofs.FinishedRecords
import NnetText.Proofs.Finishing
import NnetText.Proofs.Folding
import NnetText.Proofs.Frame
import NnetText.Proofs.Identity
import NnetText.Proofs.Insertions
import NnetText.Proofs.Invocations
import NnetText.Proofs.JoinedNames
import NnetText.Proofs.JsonReading
import NnetText.Proofs.LastValues
import NnetText.Proofs.Layering
import NnetText.Proofs.Layout
import NnetText.Proofs.Locality
import NnetText.Proofs.LogHistory
import NnetText.Proofs.Maps
import NnetText.Proofs.Matrices
import NnetText.Proofs.MatrixGrammar
import NnetText.Proofs.Movement
import NnetText.Proofs.NameNumbers
import NnetText.Proofs.Naming
import NnetText.Proofs.Numerals
import NnetText.Proofs.Offenders
import NnetText.Proofs.Openers
import NnetText.Proofs.Outcomes
import NnetText.Proofs.Passage
import NnetText.Proofs.Places
import NnetText.Proofs.Progress
import NnetText.Proofs.Reductions
import NnetText.Proofs.ShortestDigits
import NnetText.Proofs.Stages
import NnetText.Proofs.Streaming
import NnetText.Proofs.Telling
import NnetText.Proofs.Tiling
import NnetText.Proofs.Tracking
import NnetText.Proofs.Trails
import NnetText.Proofs.Transposition
import NnetText.Proofs.Truncation
import NnetText.Proofs.TypeTags
import NnetText.Proofs.VectorGrammar
import NnetText.Proofs.Words
import NnetText.Section
import NnetText.Summary
import NnetText.Tag
import NnetText.Text.Blank
import NnetText.Text.Bytes
import NnetText.Text.CaseTable
import NnetText.Text.Lowercase
import NnetText.Text.LowercaseTable
import NnetText.Token
import NnetText.Toml.Document
import NnetText.Toml.Item
import NnetText.Toml.Layout
import NnetText.Toml.Number
import NnetText.Toml.Text
import NnetText.Value
