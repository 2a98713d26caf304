/-!
# Symbols

The operators and punctuation marks of the statement language. Inequality has two spellings.
-/

namespace DataChange

/-- An operator or a punctuation mark. -/
inductive Symbol where
  | asterisk
  | comma
  | dot
  | semicolon
  | openParen
  | closeParen
  | plus
  | minus
  | slash
  | percent
  | concat
  | equal
  | notEqual
  | less
  | greater
  | lessEqual
  | greaterEqual
  deriving DecidableEq, Repr, Inhabited

namespace Symbol

/-- The usual spelling of a symbol. -/
def text : Symbol → String
  | asterisk => "*"
  | comma => ","
  | dot => "."
  | semicolon => ";"
  | openParen => "("
  | closeParen => ")"
  | plus => "+"
  | minus => "-"
  | slash => "/"
  | percent => "%"
  | concat => "||"
  | equal => "="
  | notEqual => "<>"
  | less => "<"
  | greater => ">"
  | lessEqual => "<="
  | greaterEqual => ">="

/-- All symbols. -/
def all : List Symbol :=
  [asterisk, comma, dot, semicolon, openParen, closeParen, plus, minus, slash, percent, concat,
   equal, notEqual, less, greater, lessEqual, greaterEqual]

/-- The symbol with a usual spelling. -/
def ofText? (text : String) : Option Symbol :=
  all.find? fun s => s.text == text

/-- The symbol of one character. -/
def single? : Char → Option Symbol
  | '*' => some asterisk
  | ',' => some comma
  | '.' => some dot
  | ';' => some semicolon
  | '(' => some openParen
  | ')' => some closeParen
  | '+' => some plus
  | '-' => some minus
  | '/' => some slash
  | '%' => some percent
  | '=' => some equal
  | '<' => some less
  | '>' => some greater
  | _ => none

/-- The symbol of two characters. -/
def double? : Char → Char → Option Symbol
  | '|', '|' => some concat
  | '!', '=' => some notEqual
  | '<', '=' => some lessEqual
  | '<', '>' => some notEqual
  | '>', '=' => some greaterEqual
  | _, _ => none

end Symbol

end DataChange
