import DataChange.Token.Basic

/-!
# What a statement should have held

Each place of the grammar that refuses a token names what it wanted there instead.
-/

namespace DataChange

/-- What the grammar wants at some place. -/
inductive Expected where
  | keyword (k : Keyword)
  | symbol (s : Symbol)
  /-- The quote that ends a quoted text. -/
  | closing (quote : Char)
  | validToken
  | anyToken
  | identifier
  | endOfStatement
  | operator
  | integerInRange
  | expression
  | valueNotDefault
  | query
  | queryKeyword
  | rangesForStar
  | unqualifiedColumn
  | routineVariable
  | diagnosticsItem
  | columnName
  | correlationName
  | relation
  | rowValue
  | matchedAction
  | truncateObject
  | commitClause
  | statement
  | statementKeyword
  | valuesOrQuery
  | overridingKind
  | resolvedQuery
  | resolvedFunction
  deriving DecidableEq, Repr

/-- The words for it in a message. -/
def Expected.text : Expected → String
  | keyword k => k.text
  | symbol s => s.text
  | closing quote => "closing " ++ quote.toString
  | validToken => "a valid token"
  | anyToken => "a token"
  | identifier => "an identifier"
  | endOfStatement => "end of statement"
  | operator => "an operator"
  | integerInRange => "an integer in range"
  | expression => "an expression"
  | valueNotDefault => "a value expression instead of DEFAULT"
  | query => "a query"
  | queryKeyword => "SELECT, TABLE or VALUES"
  | rangesForStar => "a FROM clause for *"
  | unqualifiedColumn => "a column name without qualifier"
  | routineVariable => "a variable"
  | diagnosticsItem => "ROW_COUNT or MORE"
  | columnName => "a column name"
  | correlationName => "a correlation name for the derived table"
  | relation => "a table or view"
  | rowValue => "a row value"
  | matchedAction => "UPDATE or DELETE"
  | truncateObject => "TABLE or SCHEMA"
  | commitClause => "AND COMMIT"
  | statement => "a data change statement"
  | statementKeyword => "INSERT, UPDATE, DELETE, MERGE, TRUNCATE or CALL"
  | valuesOrQuery => "VALUES or a query"
  | overridingKind => "USER or SYSTEM"
  | resolvedQuery => "a resolved subquery"
  | resolvedFunction => "a resolved function"

end DataChange
