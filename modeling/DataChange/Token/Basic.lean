import DataChange.Fragment
import DataChange.Token.Keyword
import DataChange.Token.Symbol

/-!
# Tokens

A token is a word, a literal or a symbol with the fragment it was read from. The fragment of a
quoted token holds the text between the quotes, with each doubled quote made one.
-/

namespace DataChange

/-- What a token is. -/
inductive TokenKind where
  | keyword (k : Keyword)
  | identifier
  /-- A name between double quotes. -/
  | quotedIdentifier
  | integer
  | decimal
  /-- A text between single quotes. -/
  | string
  /-- A question mark. -/
  | parameter
  | symbol (s : Symbol)
  deriving DecidableEq, Repr, Inhabited

/-- Whether a text can spell a token of a kind: a whole number is spelled by digits alone. -/
def TokenKind.isSpelledBy : TokenKind → String → Bool
  | .integer, text => text.toList.all Char.isDigit
  | _, _ => true

/-- A token of a statement. -/
structure Token where
  kind : TokenKind
  fragment : Fragment
  spelled : kind.isSpelledBy fragment.text = true
  deriving DecidableEq, Repr

instance : Inhabited Token :=
  ⟨⟨.parameter, .absent, rfl⟩⟩

namespace Token

def text (t : Token) : String :=
  t.fragment.text

def isKeyword (t : Token) (k : Keyword) : Bool :=
  t.kind = .keyword k

def isSymbol (t : Token) (s : Symbol) : Bool :=
  t.kind = .symbol s

/-- Whether the token can name a table, a column or a routine. -/
def isIdentifier (t : Token) : Bool :=
  match t.kind with
  | .identifier | .quotedIdentifier => true
  | .keyword k => !k.isReserved
  | _ => false

end Token

end DataChange
