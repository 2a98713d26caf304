/-!
# The double nearest to a fraction

A double is 0, or a whole number `m < 2 ^ 53` times a power of two between `2 ^ (-1074)` and
`2 ^ 971`. `nearestBits` rounds the fraction `num / den` to the nearest of them in exact
arithmetic and gives its 64 bits; a fraction halfway between two goes to the even one, and one
beyond the largest gives infinity.
-/

namespace DataChange.Decimal

/-- The power `2 ^ n`. -/
def twoTo (n : Nat) : Nat :=
  Nat.pow 2 n

/-- The power `10 ^ n`. -/
def tenTo (n : Nat) : Nat :=
  Nat.pow 10 n

/-- `num / den` to the nearest whole number, a half going to the even neighbour. -/
def roundDiv (num den : Nat) : Nat :=
  let q := num / den
  let r := num % den
  if 2 * r < den || (2 * r == den && q % 2 == 0) then q else q + 1

/-- The exponent of the largest power of two that is at most `num / den`. -/
def binaryExponent (num den : Nat) : Int :=
  let guess : Int := (num.log2 : Int) - den.log2
  let below := if guess < 0 then num * twoTo (-guess).toNat < den else num < den * twoTo guess.toNat
  if below then guess - 1 else guess

/-- The bits of infinity. -/
def infinityBits : Nat := 0x7ff * twoTo 52

/-- The bits of the double nearest to `num / den`, for `0 < den`. The unit in the last place is
`2 ^ u`; counting in it, the next exponent starts exactly where the whole number reaches
`2 ^ 53`, so adding the two fields carries by itself. -/
def nearestBits (num den : Nat) : Nat :=
  if num = 0 then 0
  else
    let u := max (binaryExponent num den - 52) (-1074)
    let m :=
      if u < 0 then roundDiv (num * twoTo (-u).toNat) den else roundDiv num (den * twoTo u.toNat)
    min ((u + 1074).toNat * twoTo 52 + m) infinityBits

/-- The bits of the double nearest to `digits * 10 ^ exponent`. Exponents far outside the range
of doubles are settled without computing the power. -/
def nearestDecimalBits (digits : Nat) (exponent : Int) : Nat :=
  if digits = 0 then 0
  else if exponent > 400 then infinityBits
  else if exponent < -(digits.log2 + 400 : Int) then 0
  else if exponent ≥ 0 then nearestBits (digits * tenTo exponent.toNat) 1
  else nearestBits digits (tenTo (-exponent).toNat)

/-- The double with the given magnitude and sign. -/
def ofBits (negative : Bool) (bits : Nat) : Float :=
  Float.ofBits (UInt64.ofNat (if negative then bits + twoTo 63 else bits))

end DataChange.Decimal
