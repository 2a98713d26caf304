import DataChange.Decimal.Nearest
import DataChange.Text.Case

/-!
# Numbers from their decimal text

`readDouble?` reads an optional sign, digits with an optional point among them and an optional
exponent, and gives the nearest double; `inf`, `infinity` and `nan` are read in any case.
`readInt64?` reads a whole number that fits 64 signed bits.
-/

namespace DataChange.Decimal

/-- The number a list of digits spells. -/
def digitsValue (ds : List Char) : Nat :=
  ds.foldl (fun n c => n * 10 + (c.toNat - '0'.toNat)) 0

/-- Splits a leading sign off; a minus gives `true`. -/
def splitSign : List Char → Bool × List Char
  | '-' :: cs => (true, cs)
  | '+' :: cs => (false, cs)
  | cs => (false, cs)

/-- A whole number: a sign or none, and at least one digit. -/
def readInt? (cs : List Char) : Option Int :=
  let (negative, ds) := splitSign cs
  if ds.isEmpty || !ds.all Char.isDigit then none
  else some (if negative then -(digitsValue ds : Int) else digitsValue ds)

/-- A whole number of 64 signed bits. -/
def readInt64? (s : String) : Option Int64 :=
  match readInt? s.toList with
  | some n =>
    if Int64.minValue.toInt ≤ n && n ≤ Int64.maxValue.toInt then some (Int64.ofInt n) else none
  | none => none

/-- What follows the digits of a number: nothing, or an exponent. -/
def readExponent? : List Char → Option Int
  | [] => some 0
  | c :: cs => if c = 'e' || c = 'E' then readInt? cs else none

/-- The bits of an unsigned number: digits, a point and more digits, an exponent. Either side of
the point may lack its digits, but not both. -/
def readMagnitude? (cs : List Char) : Option Nat :=
  let whole := cs.takeWhile Char.isDigit
  let rest := cs.dropWhile Char.isDigit
  let (fraction, rest) := match rest with
    | '.' :: more => (more.takeWhile Char.isDigit, more.dropWhile Char.isDigit)
    | _ => ([], rest)
  if whole.isEmpty && fraction.isEmpty then none
  else (readExponent? rest).map fun exponent =>
    nearestDecimalBits (digitsValue (whole ++ fraction)) (exponent - fraction.length)

/-- The bits of not-a-number. -/
def nanBits : Nat := infinityBits + twoTo 51

/-- The double that a decimal text stands for. -/
def readDouble? (s : String) : Option Float :=
  let (negative, cs) := splitSign s.toList
  let word := Text.foldCase (String.ofList cs)
  if word == "inf" || word == "infinity" then some (ofBits negative infinityBits)
  else if word == "nan" then some (ofBits negative nanBits)
  else (readMagnitude? cs).map (ofBits negative)

end DataChange.Decimal
