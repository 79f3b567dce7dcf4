import RunRecord.Files.Store
import RunRecord.Main
import RunRecord.Report.Recording
import RunRecord.Settings.Json
import RunRecord.Proofs.Calendar
import RunRecord.Proofs.Command.Settings
import RunRecord.Proofs.Files.Contents
import RunRecord.Proofs.Text.Digits
import RunRecord.Proofs.Text.Utf8
import RunRecord.Proofs.Instant.RoundTrip
import RunRecord.Proofs.Instant.Offset
import RunRecord.Proofs.Json.Text
import RunRecord.Proofs.Json.Reads
import RunRecord.Proofs.Json.Number
import RunRecord.Proofs.Json.Record
import RunRecord.Proofs.Json.Tree
import RunRecord.Proofs.Json.Skip
import RunRecord.Proofs.Json.Escape
import RunRecord.Proofs.Json.Takes
import RunRecord.Proofs.Json.Assembly
import RunRecord.Proofs.Json.Rearrange
import RunRecord.Proofs.Json.Written
import RunRecord.Proofs.Json.Cut
import RunRecord.Proofs.Toml.Document
import RunRecord.Proofs.Xml.Reader
import RunRecord.Proofs.Xml.RoundTrip
import RunRecord.Proofs.Files.Growth
import RunRecord.Proofs.Files.Writing
import RunRecord.Proofs.Report.RoundTrip
import RunRecord.Proofs.Report.Acceptance
import RunRecord.Proofs.Report.XmlReader
import RunRecord.Proofs.Report.Presentation
import RunRecord.Proofs.Report.Truncation
import RunRecord.Proofs.Command.Render
import RunRecord.Proofs.Recording.Run
import RunRecord.Proofs.Recording.Derived
import RunRecord.Proofs.Recording.Reload
import RunRecord.Proofs.Command.Summary
import RunRecord.Proofs.Recording.Growth
import RunRecord.Proofs.Recording.Untimed
import RunRecord.Proofs.Recording.Parallel
import RunRecord.Proofs.Report.Strings
import RunRecord.Proofs.Xml.Processor
import RunRecord.Proofs.Report.XmlProcessor
import RunRecord.Proofs.Binary64
import RunRecord.Proofs.Elapsed.Rounding
import RunRecord.Proofs.Elapsed.Sign
import RunRecord.Proofs.Elapsed.Order
import RunRecord.Proofs.Json.Lexeme
import RunRecord.Proofs.Json.Spelling
import RunRecord.Proofs.Json.Layout
import RunRecord.Proofs.Report.Schema
import RunRecord.Proofs.Report.Formats
import RunRecord.Proofs.Report.Instants
import RunRecord.Proofs.Report.Offset
import RunRecord.Proofs.Report.Saving
import RunRecord.Proofs.Terminal
import RunRecord.Proofs.Summary
import RunRecord.Proofs.Command.Line
import RunRecord.Proofs.Summary.Lines
import RunRecord.Proofs.Toml.Text
import RunRecord.Proofs.Toml.Layout
