import Spreadsheet.Binary64.Basic
import Spreadsheet.Binary64.Decimal
import Spreadsheet.Coercion
import Spreadsheet.Command.Arguments
import Spreadsheet.Command.Console
import Spreadsheet.Command.Project
import Spreadsheet.Command.Run
import Spreadsheet.Csv
import Spreadsheet.Decimal.Digits
import Spreadsheet.Decimal.Layout
import Spreadsheet.Decimal.Reading
import Spreadsheet.Decimal.Rounding
import Spreadsheet.Display
import Spreadsheet.Fault
import Spreadsheet.Formula.Evaluation
import Spreadsheet.Formula.Expr
import Spreadsheet.Formula.Parsing
import Spreadsheet.Formula.Reference
import Spreadsheet.Formula.Token
import Spreadsheet.Grid
import Spreadsheet.Json.Reading
import Spreadsheet.Json.Token
import Spreadsheet.Json.Writing
import Spreadsheet.Kpi
import Spreadsheet.Label
import Spreadsheet.Log.Event
import Spreadsheet.Log.Journal
import Spreadsheet.Log.Query
import Spreadsheet.Log.Recorder
import Spreadsheet.Log.Redaction
import Spreadsheet.Log.Report
import Spreadsheet.Main
import Spreadsheet.Number
import Spreadsheet.Numeral
import Spreadsheet.OrderedMap
import Spreadsheet.Path
import Spreadsheet.Project.Config
import Spreadsheet.Project.Host
import Spreadsheet.Project.Time
import Spreadsheet.Range
import Spreadsheet.Session.Basic
import Spreadsheet.Session.Noted
import Spreadsheet.Session.Prepared
import Spreadsheet.Session.Recursive
import Spreadsheet.Sheet.Basic
import Spreadsheet.Sheet.Content
import Spreadsheet.Sheet.File
import Spreadsheet.Sheet.Literal
import Spreadsheet.Sheet.Unchecked
import Spreadsheet.Sheet.Wire
import Spreadsheet.Text.Blank
import Spreadsheet.Text.DecimalDigit
import Spreadsheet.Text.Hex
import Spreadsheet.Text.Lines
import Spreadsheet.Text.Printable
import Spreadsheet.Text.Quoted
import Spreadsheet.Text.UpperCase
import Spreadsheet.Text.Utf8
import Spreadsheet.Unreadable
import Spreadsheet.Value.Basic
import Spreadsheet.Value.Integer
import Spreadsheet.Value.Shown
import Spreadsheet.ValueRef
import Spreadsheet.Yaml.Dates
import Spreadsheet.Yaml.Node
import Spreadsheet.Yaml.Parser
import Spreadsheet.Yaml.Plain
import Spreadsheet.Yaml.Reading
import Spreadsheet.Yaml.Scalar
import Spreadsheet.Yaml.Token
import Spreadsheet.Proofs.Formula.Asked
import Spreadsheet.Proofs.Formula.Inquiry
import Spreadsheet.Proofs.Formula.Occurrence
import Spreadsheet.Proofs.Formula.Acceptance
import Spreadsheet.Proofs.Formula.Direct
import Spreadsheet.Proofs.Formula.Grammar
import Spreadsheet.Proofs.Formula.Parsed
import Spreadsheet.Proofs.Session.Agreement
import Spreadsheet.Proofs.Session.Denotations
import Spreadsheet.Proofs.Session.DirectSheets
import Spreadsheet.Proofs.Session.Failures
import Spreadsheet.Proofs.Session.FormulaRuns
import Spreadsheet.Proofs.Session.Marks
import Spreadsheet.Proofs.Session.Unread
import Spreadsheet.Proofs.Sheet.LiteralData
import Spreadsheet.Proofs.Sheet.Loading
import Spreadsheet.Proofs.Session.Grids
import Spreadsheet.Proofs.Session.Literals
import Spreadsheet.Proofs.OrderedMap
import Spreadsheet.Proofs.Text
import Spreadsheet.Proofs.Keys
import Spreadsheet.Proofs.Session.Trimmed
import Spreadsheet.Proofs.Sheet.Obtained
import Spreadsheet.Proofs.Sheet.Reloading
import Spreadsheet.Proofs.Sheet.SamePosition
import Spreadsheet.Proofs.Session.FormulaValues
import Spreadsheet.Proofs.Sheet.Entered
import Spreadsheet.Proofs.Sheet.SavedGrid
import Spreadsheet.Proofs.Decimal.Numerals
import Spreadsheet.Proofs.Binary64.Rounding
import Spreadsheet.Proofs.Binary64.Decimals
import Spreadsheet.Proofs.Decimal.Shortest
import Spreadsheet.Proofs.Decimal.Layout
import Spreadsheet.Proofs.Json.Texts
import Spreadsheet.Proofs.Json.Tokens
import Spreadsheet.Proofs.Json.RoundTrip
import Spreadsheet.Proofs.Log.Forms
import Spreadsheet.Proofs.Log.Journal
import Spreadsheet.Proofs.Log.ReadBack
import Spreadsheet.Proofs.Json.Received
import Spreadsheet.Proofs.Log.Damage
import Spreadsheet.Proofs.Json.Fields
import Spreadsheet.Proofs.Log.Attribution
import Spreadsheet.Proofs.Formula.Positions
import Spreadsheet.Proofs.ValueRef
import Spreadsheet.Proofs.Sheet.Spellings
import Spreadsheet.Proofs.Formula.Spacing
import Spreadsheet.Proofs.Formula.Composition
import Spreadsheet.Proofs.Session.Prefetching
import Spreadsheet.Proofs.Session.Projection
import Spreadsheet.Proofs.Ranges
import Spreadsheet.Proofs.Sheet.Rewritten
import Spreadsheet.Proofs.Coercion.Failures
import Spreadsheet.Proofs.Formula.Sums
import Spreadsheet.Proofs.Session.Sums
import Spreadsheet.Proofs.Formula.RoundedIntegers
import Spreadsheet.Proofs.Log.Windows
import Spreadsheet.Proofs.Log.Answers
import Spreadsheet.Proofs.Log.Redaction
import Spreadsheet.Proofs.Decimal.Grouping
import Spreadsheet.Proofs.Kpi
import Spreadsheet.Proofs.Kpi.Threshold
import Spreadsheet.Proofs.Sheet.Files
import Spreadsheet.Proofs.Formula.Traversal
