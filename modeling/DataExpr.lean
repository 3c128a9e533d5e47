import DataExpr.Expr.Printer
import DataExpr.Expr.Parser
import DataExpr.Expr.Document
import DataExpr.Token.Cursor
import DataExpr.Token.Document
import DataExpr.Decimal
import DataExpr.Value
import DataExpr.Object
import DataExpr.EvalError
import DataExpr.Path
import DataExpr.Value.Equality
import DataExpr.Value.Text
import DataExpr.Value.Document
import DataExpr.Findings
import DataExpr.Regex.Reader
import DataExpr.Regex.Search
import DataExpr.Matcher.Access
import DataExpr.Matcher.Walk
import DataExpr.Matcher.Combine
import DataExpr.Matcher.Shape
import DataExpr.Pattern.Printer
import DataExpr.Pattern.Compile
import DataExpr.Host
import DataExpr.Document.Number
import DataExpr.Document.Printer
import DataExpr.Document.Reader
import DataExpr.Diagnostic
import DataExpr.Command
import DataExpr.Main
import DataExpr.Proofs.Expr.RoundTrip
import DataExpr.Proofs.Pattern.NoOp
import DataExpr.Proofs.Pattern.PathEdit
import DataExpr.Proofs.Pattern.Descent
import DataExpr.Proofs.Findings.Laws
import DataExpr.Proofs.Matcher.Nesting
import DataExpr.Proofs.Pattern.Flattening
import DataExpr.Proofs.Expr.Grammar
import DataExpr.Proofs.Expr.Grammar.Parse
import DataExpr.Proofs.Findings.Yields
import DataExpr.Proofs.Matcher.Lawful
import DataExpr.Proofs.Matcher.Lawful.Access
import DataExpr.Proofs.Pattern.Navigation
import DataExpr.Proofs.Matcher.LevelOrder
import DataExpr.Proofs.Pattern.LeafEdit
import DataExpr.Proofs.Pattern.Levels
import DataExpr.Proofs.Pattern.ObjectShape
import DataExpr.Proofs.Pattern.Transparent
import DataExpr.Proofs.Pattern.LeafGather
import DataExpr.Proofs.Pattern.Shape
import DataExpr.Proofs.Pattern.Splicing
import DataExpr.Proofs.Expr.ErrorPlace
import DataExpr.Proofs.Expr.Placement
import DataExpr.Proofs.Expr.Placement.Pending
import DataExpr.Proofs.Expr.Placement.States
import DataExpr.Proofs.Expr.Source
import DataExpr.Proofs.Expr.Spans
import DataExpr.Proofs.Pattern.Composition
import DataExpr.Proofs.Pattern.Acceptance
import DataExpr.Proofs.Token.Longest
import DataExpr.Proofs.Token.Quoted
import DataExpr.Proofs.Pattern.Written
import DataExpr.Proofs.Pattern.RoundTrip
import DataExpr.Proofs.Entries.Sorted
import DataExpr.Proofs.Value.Document
import DataExpr.Proofs.Path.Update
import DataExpr.Proofs.Pattern.ArrayShape
import DataExpr.Proofs.Pattern.ObjectReplace
import DataExpr.Proofs.Pattern.ObjectPutGet
import DataExpr.Proofs.Pattern.Algebra
import DataExpr.Proofs.Value.Equality
import DataExpr.Proofs.Value.Cyclic
import DataExpr.Proofs.Pattern.Positions
import DataExpr.Proofs.Diagnostic
import DataExpr.Proofs.Object.History
import DataExpr.Proofs.Pattern.PlaceholderError
import DataExpr.Proofs.Pattern.TextEdit
