import DataChange.Decimal.Reading
import DataChange.Decimal.Shortest

/-!
# JSON values

Definitions and settings are exchanged as JSON. A number is kept as it is written, so that whole
numbers stay exact; an object keeps the order of its fields, repeated ones included. A string or a
field name with half of a surrogate pair has no text; the value it stands in is unreadable, which
does no harm where the value is ignored.
-/

namespace DataChange

/-- A number of JSON: digits before the point, digits after it and an exponent. -/
structure JsonNumber where
  negative : Bool
  whole : List Char
  fraction : List Char
  exponent : Option Int
  deriving DecidableEq, Repr, Inhabited

/-- A value of JSON. -/
inductive Json where
  | null
  | bool (b : Bool)
  | number (n : JsonNumber)
  | text (s : String)
  /-- A string without a text, or an object with such a field name. -/
  | unreadable
  | array (items : List Json)
  | object (fields : List (String × Json))
  deriving Repr, Inhabited

namespace JsonNumber

def ofNat (n : Nat) : JsonNumber :=
  ⟨false, Nat.toDigits 10 n, [], none⟩

def ofInt (n : Int) : JsonNumber :=
  ⟨n < 0, Nat.toDigits 10 n.natAbs, [], none⟩

/-- A decimal with its point where it stands, if it lies within sixteen digits before the point
and four zeros after it; otherwise one digit before the point and an exponent. A whole number has
a zero after its point. -/
def ofScaled (negative : Bool) (s : Decimal.Scaled) : JsonNumber :=
  let digits := Nat.toDigits 10 s.digits
  let point : Int := digits.length + s.exponent
  if 16 < point || point ≤ -5 then ⟨negative, digits.take 1, digits.drop 1, some (point - 1)⟩
  else if point ≤ 0 then ⟨negative, ['0'], List.replicate (-point).toNat '0' ++ digits, none⟩
  else
    let fraction := digits.drop point.toNat
    ⟨negative, digits.take point.toNat ++ List.replicate s.exponent.toNat '0',
      if fraction.isEmpty then ['0'] else fraction, none⟩

/-- The shortest decimal of a finite double, ties going to the even digit. -/
def ofDouble? (x : Float) : Option JsonNumber :=
  match Decimal.magnitude x with
  | .finite m q => some (ofScaled (Decimal.isNegative x) (Decimal.shortest .even m q))
  | .infinite => none
  | .notANumber => none

/-- The integer that is written, if neither a point nor an exponent is; a negative zero is no
integer. -/
def toInt? (n : JsonNumber) : Option Int :=
  let value := Decimal.digitsValue n.whole
  if !n.fraction.isEmpty || n.exponent.isSome then none
  else if n.negative then (if value = 0 then none else some (-(value : Int)))
  else some value

/-- Appends digits to a number while it stays below `2 ^ 64`, and counts those left. -/
def significand : Nat → List Char → Nat × Nat
  | n, [] => (n, 0)
  | n, c :: cs =>
    let next := n * 10 + (c.toNat - '0'.toNat)
    if next < Decimal.twoTo 64 then significand next cs else (n, cs.length + 1)

/-- A power of ten as a double. -/
def powerOfTen (n : Nat) : Float :=
  Decimal.ofBits false (Decimal.nearestDecimalBits 1 n)

/-- Scales by a power of ten within the range of doubles, in steps of `10 ^ 308` towards zero. -/
def scale (x : Float) (exponent : Int) : Option Float :=
  if exponent ≥ 0 then
    if exponent > 308 then (if x == 0 then some x else none)
    else
      let y := x * powerOfTen exponent.toNat
      if y.isInf then none else some y
  else
    let steps := min ((-exponent).toNat / 308) 3
    let down := steps.repeat (fun y => y / powerOfTen 308) x
    some (down / powerOfTen (min ((-exponent).toNat - 308 * steps) 308))

/-- The double that a number stands for: its significand scaled by its exponent. Digits before the
point that the significand has no room for raise the exponent; those after it are ignored. -/
def toDouble? (n : JsonNumber) : Option Float :=
  let (whole, dropped) := significand 0 n.whole
  let (digits, ignored) := significand whole n.fraction
  let exponent := n.exponent.getD 0 + dropped - (n.fraction.length - ignored : Nat)
  let magnitude := scale (Decimal.ofBits false (Decimal.nearestBits digits 1)) exponent
  magnitude.map fun x => if n.negative then -x else x

end JsonNumber

namespace Json

/-- A list of values. -/
def ofList {α : Type} (f : α → Json) (xs : List α) : Json :=
  array (xs.map f)

def ofNat (n : Nat) : Json :=
  number (.ofNat n)

/-- A double, or null for what is no finite number. -/
def ofDouble (x : Float) : Json :=
  match JsonNumber.ofDouble? x with
  | some n => number n
  | none => null

/-- A value, or null. -/
def ofOption {α : Type} (f : α → Json) : Option α → Json
  | some a => f a
  | none => null

/-- The value of the first field with a name. -/
def field? : Json → String → Option Json
  | object fields, name => fields.lookup name
  | _, _ => none

end Json

end DataChange
