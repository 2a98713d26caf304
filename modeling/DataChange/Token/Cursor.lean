import DataChange.Error.Basic

/-!
# A cursor over tokens

`Cursor` holds the tokens read and those still to come; `Reader` computes on it and may fail. A
failure keeps the cursor where it happened.
-/

namespace DataChange

/-- A place between the tokens of a statement. -/
structure Cursor where
  /-- The tokens read, the last one first. -/
  past : List Token
  /-- The tokens to come. -/
  rest : List Token
  deriving DecidableEq, Repr, Inhabited

namespace Cursor

/-- The cursor before the first of some tokens. -/
def ofTokens (tokens : List Token) : Cursor :=
  ⟨[], tokens⟩

/-- All tokens, read or not. -/
def tokens (c : Cursor) : List Token :=
  c.past.reverse ++ c.rest

/-- The number of tokens read. -/
def position (c : Cursor) : Nat :=
  c.past.length

def isAtEnd (c : Cursor) : Bool :=
  c.rest.isEmpty

/-- The next token. -/
def peek? (c : Cursor) : Option Token :=
  c.rest.head?

/-- The cursor `n` tokens further on, or at the end. -/
def advance (c : Cursor) (n : Nat) : Cursor :=
  ⟨(c.rest.take n).reverse ++ c.past, c.rest.drop n⟩

/-- The cursor after the first `n` of its tokens. -/
def moveTo (c : Cursor) (n : Nat) : Cursor :=
  (ofTokens c.tokens).advance n

/-- The fragment of the next token, or at the end that of the last one. -/
def fragment (c : Cursor) : Fragment :=
  match c.rest, c.past with
  | t :: _, _ => t.fragment
  | [], t :: _ => t.fragment
  | [], [] => .absent

def isKeyword (c : Cursor) (k : Keyword) : Bool :=
  c.peek?.any (·.isKeyword k)

def isSymbol (c : Cursor) (s : Symbol) : Bool :=
  c.peek?.any (·.isSymbol s)

def isIdentifier (c : Cursor) : Bool :=
  c.peek?.any (·.isIdentifier)

/-- Whether the next token begins a query. -/
def startsQuery (c : Cursor) : Bool :=
  c.isKeyword .SELECT || c.isKeyword .WITH || c.isKeyword .TABLE || c.isKeyword .VALUES

/-- The failure at the end of the tokens. -/
def endedBefore (c : Cursor) (expected : Expected) : Error :=
  ⟨.unexpectedEnd expected, c.fragment⟩

/-! ## Laws -/

@[simp] theorem tokens_ofTokens (ts : List Token) : (ofTokens ts).tokens = ts := by
  simp [ofTokens, tokens]

@[simp] theorem tokens_advance (c : Cursor) (n : Nat) : (c.advance n).tokens = c.tokens := by
  simp [advance, tokens]

@[simp] theorem tokens_moveTo (c : Cursor) (n : Nat) : (c.moveTo n).tokens = c.tokens := by
  simp [moveTo]

theorem position_le (c : Cursor) : c.position ≤ c.tokens.length := by
  simp [position, tokens]

end Cursor

/-- The tokens up to the bracket that closes the current one, with `depth` further brackets open,
and the tokens after it. -/
def splitClosing : Nat → List Token → Option (List Token × List Token)
  | _, [] => none
  | depth, t :: ts =>
    if t.isSymbol .openParen then
      (splitClosing (depth + 1) ts).map fun (body, rest) => (t :: body, rest)
    else if t.isSymbol .closeParen then
      match depth with
      | 0 => some ([], ts)
      | depth + 1 => (splitClosing depth ts).map fun (body, rest) => (t :: body, rest)
    else (splitClosing depth ts).map fun (body, rest) => (t :: body, rest)

/-- A computation that reads tokens. -/
abbrev Reader := EStateM Error Cursor

namespace Reader

/-- The next token, which stays. -/
def current : Reader Token := do
  let c ← get
  match c.rest with
  | t :: _ => return t
  | [] => throw (c.endedBefore .anyToken)

/-- Reads the next token. -/
def next : Reader Token := do
  let t ← current
  modify (·.advance 1)
  return t

/-- Reads a token of a kind. -/
def ofKind (kind : TokenKind) (expected : Expected) : Reader Token := do
  let c ← get
  match c.rest with
  | [] => throw (c.endedBefore expected)
  | t :: _ => if t.kind = kind then next else throw (.unexpected expected t.fragment)

def keyword (k : Keyword) : Reader Token :=
  ofKind (.keyword k) (.keyword k)

def symbol (s : Symbol) : Reader Token :=
  ofKind (.symbol s) (.symbol s)

/-- Reads a token if it is of a kind. -/
def ofKind? (kind : TokenKind) : Reader (Option Token) := do
  let c ← get
  match c.rest with
  | t :: _ =>
    if t.kind = kind then
      set (c.advance 1)
      return some t
    else return none
  | [] => return none

def keyword? (k : Keyword) : Reader (Option Token) :=
  ofKind? (.keyword k)

def symbol? (s : Symbol) : Reader (Option Token) :=
  ofKind? (.symbol s)

/-- Reads a keyword if it is next, and says whether it was. -/
def skipKeyword (k : Keyword) : Reader Bool :=
  return (← keyword? k).isSome

/-- Reads a symbol if it is next, and says whether it was. -/
def skipSymbol (s : Symbol) : Reader Bool :=
  return (← symbol? s).isSome

def identifier : Reader Token := do
  let t ← current
  if t.isIdentifier then next else throw (.unexpected .identifier t.fragment)

/-- Reads all opening brackets that follow each other, and counts them. -/
def openParens : Reader Nat := do
  let c ← get
  let count := (c.rest.takeWhile (·.isSymbol .openParen)).length
  set (c.advance count)
  return count

/-- Reads `n` closing brackets. -/
def closeParens : Nat → Reader Unit
  | 0 => return ()
  | n + 1 => do
    let _ ← symbol .closeParen
    closeParens n

/-- Accepts a semicolon and wants the end. -/
def finish : Reader Unit := do
  let _ ← symbol? .semicolon
  match (← get).rest with
  | [] => return ()
  | t :: _ => throw (.unexpected .endOfStatement t.fragment)

/-- Reads the tokens up to the bracket that closes the one just read, and this bracket. -/
def parenthesised : Reader (List Token) := do
  let c ← get
  match splitClosing 0 c.rest with
  | some (body, _) =>
    set (c.advance (body.length + 1))
    return body
  | none =>
    let c := c.advance c.rest.length
    set c
    throw (c.endedBefore (.symbol .closeParen))

end Reader

end DataChange
