import DataChange.Catalog.Banking
import DataChange.Catalog.Basic
import DataChange.Catalog.Column
import DataChange.Catalog.Directory
import DataChange.Catalog.Index
import DataChange.Catalog.Relation
import DataChange.Catalog.Routine
import DataChange.ColumnPolicy
import DataChange.Compiler.Monad
import DataChange.Config
import DataChange.Decimal.Nearest
import DataChange.Decimal.Reading
import DataChange.Decimal.Shortest
import DataChange.Diagnostic
import DataChange.Error.Basic
import DataChange.Error.Diagnostic
import DataChange.Error.Expected
import DataChange.Error.TypeClash
import DataChange.Expr.Basic
import DataChange.Expr.Binding
import DataChange.Expr.Columns
import DataChange.Expr.Conjuncts
import DataChange.Expr.Nodes
import DataChange.Expr.Operator
import DataChange.Expr.Parser
import DataChange.Expr.Printer
import DataChange.Expr.Typing
import DataChange.Fragment
import DataChange.Interchange.Definition
import DataChange.Interchange.Report
import DataChange.Interchange.Settings
import DataChange.JoinCondition
import DataChange.Json.Basic
import DataChange.Json.Decode
import DataChange.Json.Machine
import DataChange.Json.Reading
import DataChange.Json.Writing
import DataChange.Name
import DataChange.Operation
import DataChange.Proofs.Blind
import DataChange.Proofs.Catalog
import DataChange.Proofs.Catalog.History
import DataChange.Proofs.Catalog.Untouched
import DataChange.Proofs.Contained
import DataChange.Proofs.Copy.Clauses
import DataChange.Proofs.Copy.Exprs
import DataChange.Proofs.Copy.References
import DataChange.Proofs.Copy.Resolved
import DataChange.Proofs.Copy.Tokens
import DataChange.Proofs.Copy.Typed
import DataChange.Proofs.Diagnostic.Carets
import DataChange.Proofs.Expr.Bound
import DataChange.Proofs.Expr.Conforms
import DataChange.Proofs.Expr.Grammar
import DataChange.Proofs.Expr.Innermost
import DataChange.Proofs.Expr.Literals
import DataChange.Proofs.Expr.Lookup
import DataChange.Proofs.Expr.Meaning
import DataChange.Proofs.Expr.Moved
import DataChange.Proofs.Expr.Precedence
import DataChange.Proofs.Expr.Recursion
import DataChange.Proofs.Expr.Redirected
import DataChange.Proofs.Expr.Refused
import DataChange.Proofs.Expr.Resolved
import DataChange.Proofs.Expr.Settled
import DataChange.Proofs.Expr.Shape
import DataChange.Proofs.Expr.Subqueries
import DataChange.Proofs.Expr.Tree
import DataChange.Proofs.Expr.Typed
import DataChange.Proofs.Expr.Words
import DataChange.Proofs.Expr.Yields
import DataChange.Proofs.Frame
import DataChange.Proofs.JoinCondition
import DataChange.Proofs.Marker.Changes
import DataChange.Proofs.Marker.Clauses
import DataChange.Proofs.Marker.Counted
import DataChange.Proofs.Marker.Inserts
import DataChange.Proofs.Marker.Merges
import DataChange.Proofs.Marker.Order
import DataChange.Proofs.Marker.Outline
import DataChange.Proofs.Marker.Paired
import DataChange.Proofs.Marker.Parsed
import DataChange.Proofs.Marker.Query
import DataChange.Proofs.Marker.Resolved
import DataChange.Proofs.Marker.Scan
import DataChange.Proofs.Marker.Statements
import DataChange.Proofs.Marker.Views
import DataChange.Proofs.Query.Columns
import DataChange.Proofs.Query.Exprs
import DataChange.Proofs.Query.Formed
import DataChange.Proofs.Query.Recursion
import DataChange.Proofs.Query.Refused
import DataChange.Proofs.Query.Resolved
import DataChange.Proofs.Query.Runs
import DataChange.Proofs.Query.Unordered
import DataChange.Proofs.Query.Values
import DataChange.Proofs.Recursion
import DataChange.Proofs.Runs
import DataChange.Proofs.Spelling.Bound
import DataChange.Proofs.Spelling.Changes
import DataChange.Proofs.Spelling.Clauses
import DataChange.Proofs.Spelling.Columns
import DataChange.Proofs.Spelling.Folded
import DataChange.Proofs.Spelling.Joined
import DataChange.Proofs.Spelling.Parsed
import DataChange.Proofs.Spelling.Policy
import DataChange.Proofs.Spelling.Queries
import DataChange.Proofs.Spelling.Respelled
import DataChange.Proofs.Spelling.Statements
import DataChange.Proofs.Spelling.Steps
import DataChange.Proofs.Spelling.Tokens
import DataChange.Proofs.Spelling.Typed
import DataChange.Proofs.Spelling.Views
import DataChange.Proofs.SqlType
import DataChange.Proofs.Statement.Agreed
import DataChange.Proofs.Statement.Assigned
import DataChange.Proofs.Statement.BaseTable
import DataChange.Proofs.Statement.Called
import DataChange.Proofs.Statement.CompileRuns
import DataChange.Proofs.Statement.Conforms
import DataChange.Proofs.Statement.Contained
import DataChange.Proofs.Statement.Degrees
import DataChange.Proofs.Statement.Distinct
import DataChange.Proofs.Statement.Ended
import DataChange.Proofs.Statement.Grouped
import DataChange.Proofs.Statement.Held
import DataChange.Proofs.Statement.InsertRuns
import DataChange.Proofs.Statement.Landing
import DataChange.Proofs.Statement.Located
import DataChange.Proofs.Statement.Marked
import DataChange.Proofs.Statement.Permitted
import DataChange.Proofs.Statement.Proposed
import DataChange.Proofs.Statement.Queried
import DataChange.Proofs.Statement.Recursion
import DataChange.Proofs.Statement.Refused
import DataChange.Proofs.Statement.Resolved
import DataChange.Proofs.Statement.Runs
import DataChange.Proofs.Statement.Scalars
import DataChange.Proofs.Statement.Settled
import DataChange.Proofs.Statement.Slots
import DataChange.Proofs.Statement.Spread
import DataChange.Proofs.Statement.Stored
import DataChange.Proofs.Statement.Truncated
import DataChange.Proofs.Statement.Upsert
import DataChange.Proofs.Statement.Visited
import DataChange.Proofs.Statement.Whens
import DataChange.Proofs.Target.Brackets
import DataChange.Proofs.Target.Groups
import DataChange.Proofs.Target.Names
import DataChange.Proofs.Target.Pieces
import DataChange.Proofs.Target.Refused
import DataChange.Proofs.Text.Lines
import DataChange.Proofs.Token.Consumed
import DataChange.Proofs.Token.Layout
import DataChange.Proofs.Token.Lexemes
import DataChange.Proofs.Token.Matching
import DataChange.Proofs.Token.Pieces
import DataChange.Proofs.Token.Places
import DataChange.Proofs.Token.Yields
import DataChange.Proofs.View.Composed
import DataChange.Proofs.View.Descent
import DataChange.Proofs.View.Meaning
import DataChange.Proofs.View.Recursion
import DataChange.Proofs.View.Refused
import DataChange.Proofs.View.Scoped
import DataChange.Proofs.View.TypesKept
import DataChange.Proofs.View.Written
import DataChange.Proofs.Wider.Clauses
import DataChange.Proofs.Wider.Query
import DataChange.Proofs.Wider.Statement
import DataChange.Proofs.Wider.Steps
import DataChange.Query
import DataChange.Range.Basic
import DataChange.Range.Reading
import DataChange.Scope
import DataChange.Session
import DataChange.SqlType
import DataChange.Statement.Basic
import DataChange.Statement.Call
import DataChange.Statement.Compile
import DataChange.Statement.Delete
import DataChange.Statement.Insert
import DataChange.Statement.Merge
import DataChange.Statement.Slice
import DataChange.Statement.Truncate
import DataChange.Statement.Update
import DataChange.Target.Assignment
import DataChange.Target.ColumnMap
import DataChange.Target.Diagnostics
import DataChange.Text.Case
import DataChange.Text.Letter
import DataChange.Text.Numeral
import DataChange.Token.Basic
import DataChange.Token.Cursor
import DataChange.Token.Keyword
import DataChange.Token.Lexer
import DataChange.Token.Symbol
import DataChange.Value
import DataChange.ViewTarget
