import DataChange.Text.Case

/-!
# Keywords

The words with a meaning of their own. A keyword is recognised in any case; the ones that are not
reserved can still name a table, a column or a routine.
-/

namespace DataChange

/-- A keyword of the statement language. -/
inductive Keyword where
  | INSERT | REPLACE | UPDATE | DELETE | MERGE | TRUNCATE | CALL
  | INTO | VALUES | VALUE | DEFAULT | SET | FROM | WHERE | USING | ON | WHEN | MATCHED | THEN
  | SELECT | WITH | TABLE | SCHEMA | AS | ORDER | BY | ASC | DESC | LIMIT | OFFSET | ROW
  | OVERRIDING | USER | SYSTEM | IGNORE | DUPLICATE | KEY
  | CONTINUE | RESTART | IDENTITY | COMMIT | NO | CHECK
  | ROW_COUNT | MORE
  | AND | OR | NOT | IS | NULL | TRUE | FALSE
  deriving DecidableEq, Repr, Inhabited

namespace Keyword

/-- The keyword in capitals. -/
def text : Keyword → String
  | INSERT => "INSERT"
  | REPLACE => "REPLACE"
  | UPDATE => "UPDATE"
  | DELETE => "DELETE"
  | MERGE => "MERGE"
  | TRUNCATE => "TRUNCATE"
  | CALL => "CALL"
  | INTO => "INTO"
  | VALUES => "VALUES"
  | VALUE => "VALUE"
  | DEFAULT => "DEFAULT"
  | SET => "SET"
  | FROM => "FROM"
  | WHERE => "WHERE"
  | USING => "USING"
  | ON => "ON"
  | WHEN => "WHEN"
  | MATCHED => "MATCHED"
  | THEN => "THEN"
  | SELECT => "SELECT"
  | WITH => "WITH"
  | TABLE => "TABLE"
  | SCHEMA => "SCHEMA"
  | AS => "AS"
  | ORDER => "ORDER"
  | BY => "BY"
  | ASC => "ASC"
  | DESC => "DESC"
  | LIMIT => "LIMIT"
  | OFFSET => "OFFSET"
  | ROW => "ROW"
  | OVERRIDING => "OVERRIDING"
  | USER => "USER"
  | SYSTEM => "SYSTEM"
  | IGNORE => "IGNORE"
  | DUPLICATE => "DUPLICATE"
  | KEY => "KEY"
  | CONTINUE => "CONTINUE"
  | RESTART => "RESTART"
  | IDENTITY => "IDENTITY"
  | COMMIT => "COMMIT"
  | NO => "NO"
  | CHECK => "CHECK"
  | ROW_COUNT => "ROW_COUNT"
  | MORE => "MORE"
  | AND => "AND"
  | OR => "OR"
  | NOT => "NOT"
  | IS => "IS"
  | NULL => "NULL"
  | TRUE => "TRUE"
  | FALSE => "FALSE"

/-- All keywords. -/
def all : List Keyword :=
  [INSERT, REPLACE, UPDATE, DELETE, MERGE, TRUNCATE, CALL, INTO, VALUES, VALUE, DEFAULT, SET, FROM,
   WHERE, USING, ON, WHEN, MATCHED, THEN, SELECT, WITH, TABLE, SCHEMA, AS, ORDER, BY, ASC, DESC,
   LIMIT, OFFSET, ROW, OVERRIDING, USER, SYSTEM, IGNORE, DUPLICATE, KEY, CONTINUE, RESTART,
   IDENTITY, COMMIT, NO, CHECK, ROW_COUNT, MORE, AND, OR, NOT, IS, NULL, TRUE, FALSE]

/-- Whether the keyword can never be a name. -/
def isReserved : Keyword → Bool
  | VALUE | REPLACE | USER | SYSTEM | IGNORE | DUPLICATE | KEY | CONTINUE | RESTART | IDENTITY
  | COMMIT | NO | CHECK | ROW_COUNT | MORE | MATCHED | ASC | DESC | SCHEMA => false
  | _ => true

/-- The keywords by their common spelling. -/
def spellings : List (String × Keyword) :=
  all.map fun k => (Text.foldCase k.text, k)

/-- The keyword that a word spells. -/
def ofText? (word : String) : Option Keyword :=
  spellings.lookup (Text.foldCase word)

theorem mem_all (k : Keyword) : k ∈ all := by
  cases k <;> decide

end Keyword

end DataChange
