import DataChange.Error.Basic
import DataChange.Text.Letter
import DataChange.Text.Numeral

/-!
# From text to tokens

A text is read piece by piece: `Piece.read` takes the piece at its head, which is a gap (a blank
or a comment), a lexeme, or a fault. The place of a piece follows from the characters before it,
so a token carries the line and the column of its first character.
-/

namespace DataChange

/-- The place of a character: its line and its column, both counted from one. -/
structure Place where
  line : Nat
  column : Nat
  deriving DecidableEq, Repr

namespace Place

/-- The place of the first character. -/
def start : Place := ⟨1, 1⟩

/-- The place after a character. -/
def after (p : Place) (c : Char) : Place :=
  if c = '\n' then ⟨p.line + 1, 1⟩ else ⟨p.line, p.column + 1⟩

/-- The place after some characters. -/
def advance (p : Place) (cs : List Char) : Place :=
  cs.foldl after p

/-- A text standing here. -/
def fragment (p : Place) (text : String) : Fragment :=
  .written text p.line p.column

end Place

/-- The reading of the head of a text. -/
inductive Piece where
  /-- A blank or a comment. -/
  | gap
  /-- A token with its text. -/
  | lexeme (kind : TokenKind) (text : String) (spelled : kind.isSpelledBy text = true)
  /-- A quoted text without its end. -/
  | unclosed (quote : Char) (text : String)
  /-- A character that starts nothing. -/
  | stray (c : Char)
  deriving DecidableEq, Repr

/-- A piece with the characters it was read from. -/
structure ReadPiece where
  piece : Piece
  chars : List Char

namespace Piece

/-- How many characters of a block comment are left, up to its end or that of the text. -/
def blockLength : List Char → Nat
  | '*' :: '/' :: _ => 2
  | [] => 0
  | _ :: cs => blockLength cs + 1

/-- A text after its opening quote: whether it ends, its characters and how many were read. A
doubled quote stands for one. -/
def quotedBody (quote : Char) : List Char → Bool × List Char × Nat
  | [] => (false, [], 0)
  | [c] => if c = quote then (true, [], 1) else (false, [c], 1)
  | c :: d :: cs =>
    if c = quote then
      if d = quote then
        let (closed, text, n) := quotedBody quote cs
        (closed, quote :: text, n + 2)
      else (true, [], 1)
    else
      let (closed, text, n) := quotedBody quote (d :: cs)
      (closed, c :: text, n + 1)

/-- The kind of a quoted text. -/
def quotedKind (quote : Char) : TokenKind :=
  if quote = '"' then .quotedIdentifier else .string

theorem isSpelledBy_quotedKind (quote : Char) (text : String) :
    (quotedKind quote).isSpelledBy text = true := by
  unfold quotedKind
  split <;> rfl

def readQuoted (quote : Char) (cs : List Char) : ReadPiece :=
  let (closed, text, n) := quotedBody quote cs
  let text := String.ofList text
  ⟨if closed then .lexeme (quotedKind quote) text (isSpelledBy_quotedKind quote text)
    else .unclosed quote text, quote :: cs.take n⟩

/-- A token that is spelled by its own text. -/
def verbatim (kind : TokenKind) (chars : List Char)
    (spelled : kind.isSpelledBy (String.ofList chars) = true) : ReadPiece :=
  ⟨.lexeme kind (String.ofList chars) spelled, chars⟩

theorem integer_isSpelledBy_digits (cs : List Char) :
    TokenKind.integer.isSpelledBy (String.ofList (cs.takeWhile Char.isDigit)) = true := by
  simp only [TokenKind.isSpelledBy, String.toList_ofList, List.all_takeWhile]

/-- A number: digits, and a fraction if a digit follows the point. -/
def readNumber (cs : List Char) : ReadPiece :=
  let whole := cs.takeWhile Char.isDigit
  match cs.dropWhile Char.isDigit with
  | '.' :: rest =>
    let fraction := rest.takeWhile Char.isDigit
    if fraction.isEmpty then verbatim .integer whole (integer_isSpelledBy_digits cs)
    else verbatim .decimal (whole ++ '.' :: fraction) rfl
  | _ => verbatim .integer whole (integer_isSpelledBy_digits cs)

def startsWord (c : Char) : Bool :=
  Text.isLetter c || c = '_'

def continuesWord (c : Char) : Bool :=
  Text.isLetterOrNumeral c || c = '_' || c = '$'

/-- The kind of a word. -/
def wordKind (word : String) : TokenKind :=
  match Keyword.ofText? word with
  | some k => .keyword k
  | none => .identifier

theorem isSpelledBy_wordKind (word text : String) : (wordKind word).isSpelledBy text = true := by
  unfold wordKind
  split <;> rfl

def readWord (cs : List Char) : ReadPiece :=
  let word := cs.takeWhile continuesWord
  verbatim (wordKind (String.ofList word)) word (isSpelledBy_wordKind ..)

/-- A symbol, of two characters if they make one. -/
def readSymbol? (c : Char) (cs : List Char) : Option ReadPiece :=
  let single := (Symbol.single? c).map fun s => verbatim (.symbol s) [c] rfl
  match cs with
  | d :: _ =>
    match Symbol.double? c d with
    | some s => some (verbatim (.symbol s) [c, d] rfl)
    | none => single
  | [] => single

/-- A comment that starts here: to the end of the line, or between its marks. -/
def readComment? (c : Char) (cs : List Char) : Option ReadPiece :=
  match c, cs with
  | '-', '-' :: _ => some ⟨.gap, c :: cs.takeWhile (· != '\n')⟩
  | '/', '*' :: rest => some ⟨.gap, c :: '*' :: rest.take (blockLength rest)⟩
  | _, _ => none

/-- A piece that is no gap. -/
def readLexeme (c : Char) (cs : List Char) : ReadPiece :=
  match readSymbol? c cs with
  | some piece => piece
  | none =>
    if c = '?' then verbatim .parameter [c] rfl
    else if c = '\x27' || c = '"' then readQuoted c cs
    else if c.isDigit then readNumber (c :: cs)
    else if startsWord c then readWord (c :: cs)
    else ⟨.stray c, [c]⟩

/-- The piece at the head of a text. -/
def read (c : Char) (cs : List Char) : ReadPiece :=
  if Text.isBlank c then ⟨.gap, [c]⟩
  else (readComment? c cs).getD (readLexeme c cs)

end Piece

/-- The tokens of a text that starts at a place and has at most `bound` characters. -/
def tokensWithin : Nat → Place → List Char → Except Error (List Token)
  | bound + 1, place, c :: cs =>
    let { piece, chars } := Piece.read c cs
    let rest := (c :: cs).drop chars.length
    match piece with
    | .gap => tokensWithin bound (place.advance chars) rest
    | .lexeme kind text spelled =>
      match tokensWithin bound (place.advance chars) rest with
      | .ok tokens => .ok (⟨kind, place.fragment text, spelled⟩ :: tokens)
      | .error e => .error e
    | .unclosed quote text => .error ⟨.unexpectedEnd (.closing quote), place.fragment text⟩
    | .stray c => .error (.unexpected .validToken (place.fragment c.toString))
  | _, _, _ => .ok []

/-- The tokens of a statement, or the error at its first fault. -/
def tokenize (statement : String) : Except Error (List Token) :=
  let chars := statement.toList
  tokensWithin chars.length .start chars

end DataChange
