import MongoShell.Token.Scan
import MongoShell.Expr
import MongoShell.Expr.Reader
import MongoShell.Script
import MongoShell.Number.Decimal128
import MongoShell.Number.Double
import MongoShell.Number.Shortest
import MongoShell.Text.Blank
import MongoShell.Bytes.Base64
import MongoShell.Bytes.Uuid
import MongoShell.Calendar
import MongoShell.Calendar.Instant
import MongoShell.Value
import MongoShell.Value.Constructor
import MongoShell.Value.OfExpr
import MongoShell.Json
import MongoShell.Value.ToJson
import MongoShell.Registry
import MongoShell.Registry.Builtin
import MongoShell.Operation
import MongoShell.Operation.ToJson
import MongoShell.Method
import MongoShell.Method.Modifier
import MongoShell.Operation.OfStatement
import MongoShell.Execution
import MongoShell.CommandLine
import MongoShell.Main
import MongoShell.Proofs.Method.Effect
import MongoShell.Proofs.Operation.WellFormed
import MongoShell.Proofs.Execution.Acceptance
import MongoShell.Proofs.Execution.CapIndependence
import MongoShell.Proofs.Statement.Options
import MongoShell.Proofs.Checked.Script
import MongoShell.Proofs.CommandLine
import MongoShell.Proofs.Request.DistinctKeys
import MongoShell.Proofs.Request.NormalForm
import MongoShell.Proofs.Request.RowCap
import MongoShell.Proofs.Expr.Reader
import MongoShell.Proofs.Number.Rounding
import MongoShell.Proofs.Number.Shortest
import MongoShell.Proofs.Script
import MongoShell.Proofs.Token.Quote
import MongoShell.Proofs.Value.RoundTrip
import MongoShell.Proofs.Expr.Derivation
import MongoShell.Proofs.Operation.Shape
import MongoShell.Proofs.Token.Cut
import MongoShell.Proofs.Token.Excerpt
import MongoShell.Proofs.Expr.Words
import MongoShell.Proofs.Method.Alike
import MongoShell.Proofs.Script.Alone
import MongoShell.Proofs.Statement.Address
import MongoShell.Proofs.Request.Checks
import MongoShell.Proofs.Execution.Validation
import MongoShell.Proofs.Expr.Names
import MongoShell.Proofs.Statement.Chain
import MongoShell.Proofs.Statement.Modifiers
import MongoShell.Proofs.Statement.Rebuild
import MongoShell.Proofs.Statement.Lookup
import MongoShell.Proofs.Expr.Abreast
import MongoShell.Proofs.Script.Abreast
import MongoShell.Proofs.Token.Further
import MongoShell.Proofs.Script.Join
import MongoShell.Proofs.Token.Layout
import MongoShell.Proofs.Token.LongestMatch
import MongoShell.Proofs.Script.Layout
import MongoShell.Proofs.Expr.Completion
import MongoShell.Proofs.Script.Prefix
import MongoShell.Proofs.Method.Given
import MongoShell.Proofs.Statement.Arguments
import MongoShell.Proofs.Token.Spelling
import MongoShell.Proofs.Script.Strings
import MongoShell.Proofs.Number.Nearest
import MongoShell.Proofs.Number.Whole
import MongoShell.Proofs.Value.WholeNumber
import MongoShell.Proofs.Method.IntegerPlace
import MongoShell.Proofs.Value.MergeKeys
import MongoShell.Proofs.Script.Position
import MongoShell.Proofs.Script.Separation
import MongoShell.Proofs.Expr.Nesting
import MongoShell.Proofs.Script.Nesting
import MongoShell.Proofs.Execution.Envelope
import MongoShell.Proofs.Value.IntegerLiteral
import MongoShell.Proofs.Token.Plus
import MongoShell.Proofs.Statement.Rewriting
import MongoShell.Proofs.Expr.Numbered
import MongoShell.Proofs.Script.Numbered
import MongoShell.Proofs.Value.Numbered
import MongoShell.Proofs.Method.Serves
import MongoShell.Proofs.Statement.Numbered
import MongoShell.Proofs.Script.Plus
import MongoShell.Proofs.Token.Pattern
import MongoShell.Proofs.Script.Regexes
import MongoShell.Proofs.Value.Call
import MongoShell.Proofs.Value.RegularExpression
import MongoShell.Proofs.Value.Timestamp
import MongoShell.Proofs.Bytes.Text
import MongoShell.Proofs.Value.Binary
import MongoShell.Proofs.Calendar
import MongoShell.Proofs.Calendar.Reader
import MongoShell.Proofs.Calendar.WrittenTime
import MongoShell.Proofs.Calendar.Spelling
import MongoShell.Proofs.Value.Date
import MongoShell.Proofs.Registry
