import DataChange.Decimal.Nearest

/-!
# The shortest decimal of a double

`shortest` gives the fewest decimal digits that read back as the double, and of those the
nearest to it; where two are equally near, a `Tie` chooses. `text` writes them out: ties go up,
always in positional notation, with no point for a whole number.
-/

namespace DataChange.Decimal

/-- A whole number times a power of ten. -/
structure Scaled where
  digits : Nat
  exponent : Int

/-- Which of two equally near decimals is taken: the larger, or the one with an even last digit. -/
inductive Tie where
  | up
  | even
  deriving DecidableEq, Repr

/-- Whether the decimal just above `below` is taken at a tie. -/
def Tie.takesUpper : Tie → Nat → Bool
  | up, _ => true
  | even, below => below % 2 == 1

/-- The reals that round to a double `m * 2 ^ q`, counted in quarters of its last place: all
between `low` and `high` in units of `2 ^ (q - 2)`, the ends included when `m` is even. -/
structure Interval where
  low : Nat
  value : Nat
  high : Nat
  closed : Bool
  exponent : Int

/-- The interval of a double. Just above a power of two the doubles lie twice as dense below. -/
def Interval.ofDouble (m : Nat) (q : Int) : Interval where
  low := if m = twoTo 52 && q > -1074 then 4 * m - 1 else 4 * m - 2
  value := 4 * m
  high := 4 * m + 2
  closed := m % 2 == 0
  exponent := q - 2

/-- `n * 10 ^ g` and `k * 2 ^ e`, brought to one denominator and compared by `rel`. -/
def Interval.compareWith (i : Interval) (rel : Nat → Nat → Bool) (k n : Nat) (g : Int) : Bool :=
  rel (k * twoTo i.exponent.toNat * tenTo (-g).toNat)
    (n * tenTo g.toNat * twoTo (-i.exponent).toNat)

/-- Whether `n * 10 ^ g` rounds to the double. -/
def Interval.holds (i : Interval) (n : Nat) (g : Int) : Bool :=
  if i.closed then
    i.compareWith (fun a b => a ≤ b) i.low n g && i.compareWith (fun a b => b ≤ a) i.high n g
  else
    i.compareWith (fun a b => a < b) i.low n g && i.compareWith (fun a b => b < a) i.high n g

/-- The numerator and denominator of the double itself. -/
def Interval.fraction (i : Interval) : Nat × Nat :=
  (i.value * twoTo i.exponent.toNat, twoTo (-i.exponent).toNat)

/-- The number of decimal digits of `n`. -/
def digitCount (n : Nat) : Nat :=
  (Nat.toDigits 10 n).length

/-- The exponent of the largest power of ten that is at most `num / den`. -/
def decimalExponent (num den : Nat) : Int :=
  if num ≥ den then (digitCount (num / den) : Int) - 1
  else
    let d := digitCount (den / num)
    if num * tenTo (d - 1) ≥ den then -((d : Int) - 1) else -(d : Int)

/-- The nearer of the double's two neighbours on the grid of `10 ^ g` that rounds to it. -/
def Interval.onGrid (i : Interval) (tie : Tie) (g : Int) : Option Nat :=
  let (num, den) := i.fraction
  let num := num * tenTo (-g).toNat
  let den := den * tenTo g.toNat
  let below := num / den
  let rest := 2 * (num % den)
  let takesUpper := den < rest || (rest == den && tie.takesUpper below)
  match i.holds below g, i.holds (below + 1) g with
  | true, true => some (if takesUpper then below + 1 else below)
  | true, false => some below
  | false, true => some (below + 1)
  | false, false => none

/-- Tries `count` digits, then one more, while `tries` last. The upper neighbour may be the next
power of ten, which is one digit. -/
def Interval.search (i : Interval) (tie : Tie) (lead : Int) (count : Nat) : Nat → Scaled
  | 0 => ⟨0, 0⟩
  | tries + 1 =>
    let g := lead + 1 - count
    match i.onGrid tie g with
    | some n => if n = tenTo count then ⟨1, g + count⟩ else ⟨n, g⟩
    | none => i.search tie lead (count + 1) tries

/-- The shortest decimal of the double `m * 2 ^ q`. Seventeen digits always suffice. -/
def shortest (tie : Tie) (m : Nat) (q : Int) : Scaled :=
  if m = 0 then ⟨0, 0⟩
  else
    let i := Interval.ofDouble m q
    let (num, den) := i.fraction
    i.search tie (decimalExponent num den) 1 17

/-- The scaled number in positional notation. -/
def Scaled.text (s : Scaled) : String :=
  let ds := Nat.toDigits 10 s.digits
  if s.exponent ≥ 0 then String.ofList (ds ++ List.replicate s.exponent.toNat '0')
  else
    let places := (-s.exponent).toNat
    if places < ds.length then
      String.ofList (ds.take (ds.length - places) ++ '.' :: ds.drop (ds.length - places))
    else String.ofList ('0' :: '.' :: List.replicate (places - ds.length) '0' ++ ds)

/-- The magnitude of a double: `m * 2 ^ q`, infinity, or no number. -/
inductive Magnitude where
  | finite (m : Nat) (q : Int)
  | infinite
  | notANumber

/-- The magnitude that a double stores. -/
def magnitude (x : Float) : Magnitude :=
  let bits := x.toBits.toNat
  let biased : Nat := bits / twoTo 52 % twoTo 11
  let fraction : Nat := bits % twoTo 52
  if biased = 0x7ff then (if fraction = 0 then .infinite else .notANumber)
  else if biased = 0 then .finite fraction (-1074)
  else .finite (fraction + twoTo 52) ((biased : Int) - 1075)

/-- Whether the sign of a double is a minus; zero has one too. -/
def isNegative (x : Float) : Bool :=
  x.toBits.toNat ≥ twoTo 63

/-- The text of a double: its shortest decimal, `inf` or `NaN`, with a minus for a negative one,
zero included. -/
def text (x : Float) : String :=
  let sign := if isNegative x then "-" else ""
  match magnitude x with
  | .finite m q => sign ++ (shortest .up m q).text
  | .infinite => sign ++ "inf"
  | .notANumber => "NaN"

end DataChange.Decimal
