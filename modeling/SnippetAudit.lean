import SnippetAudit.Audit
import SnippetAudit.Catalog.Basic
import SnippetAudit.Catalog.Builtin
import SnippetAudit.Command.Arguments
import SnippetAudit.Command.Session
import SnippetAudit.Complexity
import SnippetAudit.Decimal.Binary
import SnippetAudit.Decimal.Numeral
import SnippetAudit.Decimal.Shortest
import SnippetAudit.Detection
import SnippetAudit.Digest
import SnippetAudit.Entries
import SnippetAudit.FileTree
import SnippetAudit.Finding
import SnippetAudit.Input
import SnippetAudit.Instant
import SnippetAudit.Json.Basic
import SnippetAudit.Json.Printer
import SnippetAudit.Json.Reader
import SnippetAudit.Language
import SnippetAudit.Main
import SnippetAudit.Metrics
import SnippetAudit.Path
import SnippetAudit.Pattern.Basic
import SnippetAudit.Pattern.CharSet
import SnippetAudit.Pattern.Reader
import SnippetAudit.Pattern.Search
import SnippetAudit.Pattern.Shape
import SnippetAudit.Proofs.Audit.Agreement
import SnippetAudit.Proofs.Audit.LineEndings
import SnippetAudit.Proofs.Audit.Recoding
import SnippetAudit.Proofs.Audit.Surroundings
import SnippetAudit.Proofs.Catalog.Builtin
import SnippetAudit.Proofs.Catalog.Construction
import SnippetAudit.Proofs.Catalog.Extraction
import SnippetAudit.Proofs.Catalog.Reading
import SnippetAudit.Proofs.Command.Arguments
import SnippetAudit.Proofs.Command.Outcome
import SnippetAudit.Proofs.Command.Reading
import SnippetAudit.Proofs.Command.Sources
import SnippetAudit.Proofs.Complexity.Matches
import SnippetAudit.Proofs.Complexity.Reference
import SnippetAudit.Proofs.Complexity.Tokens
import SnippetAudit.Proofs.Decimal.Doubles
import SnippetAudit.Proofs.Decimal.Halves
import SnippetAudit.Proofs.Decimal.Quotients
import SnippetAudit.Proofs.Decimal.ReadBack
import SnippetAudit.Proofs.Decimal.Rounding
import SnippetAudit.Proofs.Decimal.Scientific
import SnippetAudit.Proofs.Decimal.Shortest
import SnippetAudit.Proofs.Decimal.TotalOrder
import SnippetAudit.Proofs.Detection.Dominance
import SnippetAudit.Proofs.Detection.Leader
import SnippetAudit.Proofs.Detection.Votes
import SnippetAudit.Proofs.Digest.LineEndings
import SnippetAudit.Proofs.Entries
import SnippetAudit.Proofs.Input.Discovery
import SnippetAudit.Proofs.Instant.Calendar
import SnippetAudit.Proofs.Instant.ReadBack
import SnippetAudit.Proofs.Json.Embedding
import SnippetAudit.Proofs.Json.Grammar
import SnippetAudit.Proofs.Json.Reading
import SnippetAudit.Proofs.Json.Writing
import SnippetAudit.Proofs.Metrics.BraceFunctions
import SnippetAudit.Proofs.Metrics.Joining
import SnippetAudit.Proofs.Metrics.Names
import SnippetAudit.Proofs.Metrics.Origins
import SnippetAudit.Proofs.Path.Names
import SnippetAudit.Proofs.Pattern.Counting
import SnippetAudit.Proofs.Pattern.Leftmost
import SnippetAudit.Proofs.Pattern.Naming
import SnippetAudit.Proofs.Pattern.Recoding
import SnippetAudit.Proofs.Pattern.Spans
import SnippetAudit.Proofs.Pattern.Sweep
import SnippetAudit.Proofs.Pattern.Traces
import SnippetAudit.Proofs.Pattern.Words
import SnippetAudit.Proofs.Report.Lossless
import SnippetAudit.Proofs.Report.Terminal
import SnippetAudit.Proofs.Results
import SnippetAudit.Proofs.Scan.Phrases
import SnippetAudit.Proofs.Scan.Reference
import SnippetAudit.Proofs.Score
import SnippetAudit.Proofs.Settings.ReadBack
import SnippetAudit.Proofs.Smell.Groups
import SnippetAudit.Proofs.Smell.Growth
import SnippetAudit.Proofs.Smell.Nesting
import SnippetAudit.Proofs.Smell.Repeats
import SnippetAudit.Proofs.Store.Accounting
import SnippetAudit.Proofs.Store.History
import SnippetAudit.Proofs.Store.Newest
import SnippetAudit.Proofs.Store.Ranking
import SnippetAudit.Proofs.Store.Restoring
import SnippetAudit.Proofs.Store.Runs
import SnippetAudit.Proofs.Store.Statistics
import SnippetAudit.Proofs.Stored.ColumnForms
import SnippetAudit.Proofs.Stored.RecordGrammar
import SnippetAudit.Proofs.Stored.RoundTrip
import SnippetAudit.Proofs.Stored.RowText
import SnippetAudit.Proofs.Text.Decoding
import SnippetAudit.Proofs.Text.Encoding
import SnippetAudit.Proofs.Text.Letters
import SnippetAudit.Proofs.Text.Lines
import SnippetAudit.Proofs.Text.Packing
import SnippetAudit.Proofs.Text.Recoding
import SnippetAudit.Proofs.Text.Returns
import SnippetAudit.Proofs.Text.Runs
import SnippetAudit.Proofs.Text.Signs
import SnippetAudit.Proofs.Toml.IntegerTables
import SnippetAudit.Proofs.Toml.PlainLines
import SnippetAudit.Report.Basic
import SnippetAudit.Report.Paint
import SnippetAudit.Rules
import SnippetAudit.Scan
import SnippetAudit.Score
import SnippetAudit.Settings
import SnippetAudit.Smell
import SnippetAudit.Store
import SnippetAudit.Stored.Column
import SnippetAudit.Stored.Record
import SnippetAudit.Stored.Row
import SnippetAudit.Text.Alphabetic
import SnippetAudit.Text.Blank
import SnippetAudit.Text.Casing
import SnippetAudit.Text.LetterData
import SnippetAudit.Text.Lines
import SnippetAudit.Text.Occurrences
import SnippetAudit.Text.Utf8
import SnippetAudit.Toml.Basic
import SnippetAudit.Toml.Reader
