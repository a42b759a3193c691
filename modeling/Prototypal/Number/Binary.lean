import Prototypal.Number.Basic

/-!
# Binary64

Rounding a rational to the nearest binary64 value, the 64-bit form of a number, and the sum of two
numbers.
-/

namespace Prototypal.Number

/-- The quotient rounded to the nearest natural number, a half to the even neighbour. -/
def roundHalfEven (num den : Nat) : Nat :=
  let quotient := num / den
  let rest := num % den
  if 2 * rest < den then quotient
  else if den < 2 * rest then quotient + 1
  else quotient + quotient % 2

/-- The exponent `e` with `2 ^ e ≤ num / den < 2 ^ (e + 1)`, for positive `num` and `den`. -/
def binaryExponent (num den : Nat) : Int :=
  let guess : Int := (num.log2 : Int) - den.log2
  if den * Nat.pow 2 guess.toNat ≤ num * Nat.pow 2 (-guess).toNat then guess else guess - 1

/-- The exponent of the last place of a binary64 value as large as `num / den`. -/
def lastPlace (num den : Nat) : Int :=
  max (binaryExponent num den - 52) (-1074)

/-- How many units of `2 ^ place` make up `num / den`, to the nearest one. -/
def unitsAt (place : Int) (num den : Nat) : Nat :=
  roundHalfEven (num * Nat.pow 2 (-place).toNat) (den * Nat.pow 2 place.toNat)

/-- The value of `units` units of `2 ^ place`. -/
def scaled (units : Nat) (place : Int) : Rat :=
  mkRat (units * Nat.pow 2 place.toNat) (Nat.pow 2 (-place).toNat)

/-- The value `magnitude`, or its negation. -/
def signed (negative : Bool) (magnitude : Rat) : Number :=
  if magnitude = 0 then (if negative then .negativeZero else .finite 0)
  else .finite (if negative then -magnitude else magnitude)

/-- The binary64 value nearest to a rational, of two the one with an even last place. -/
def round (q : Rat) : Number :=
  if q.num = 0 then .finite 0
  else
    let negative : Bool := q.num < 0
    let place := lastPlace q.num.natAbs q.den
    let magnitude := scaled (unitsAt place q.num.natAbs q.den) place
    if scaled 1 1024 ≤ magnitude then .infinity negative else signed negative magnitude

/-- The sum, rounded once. -/
def add : Number → Number → Number
  | .nan, _ | _, .nan => .nan
  | .infinity a, .infinity b => if a = b then .infinity a else .nan
  | .infinity a, _ | _, .infinity a => .infinity a
  | .negativeZero, b => b
  | a, .negativeZero => a
  | .finite a, .finite b => round (a + b)

/-! ## Bits -/

/-- The number that 64 bits stand for: sign, eleven bits of exponent, 52 bits of fraction. -/
def ofBits (bits : UInt64) : Number :=
  let negative := bits.toNat / Nat.pow 2 63 = 1
  let exponent : Nat := bits.toNat / Nat.pow 2 52 % Nat.pow 2 11
  let fraction : Nat := bits.toNat % Nat.pow 2 52
  if exponent = 2047 then (if fraction = 0 then .infinity negative else .nan)
  else if exponent = 0 then signed negative (scaled fraction (-1074))
  else signed negative (scaled (Nat.pow 2 52 + fraction) ((exponent : Int) - 1075))

/-- The bits of a magnitude: units of the last place, the leading one left out of normal numbers. -/
def magnitudeBits (num den : Nat) : Nat :=
  let place := lastPlace num den
  let units := unitsAt place num den
  if units < Nat.pow 2 52 then units
  else (place + 1075).toNat * Nat.pow 2 52 + (units - Nat.pow 2 52)

/-- The 64 bits of a number; every `nan` has the same. -/
def toBits : Number → UInt64
  | .nan => 0x7ff8000000000000
  | .infinity negative => if negative then 0xfff0000000000000 else 0x7ff0000000000000
  | .negativeZero => 0x8000000000000000
  | .finite q =>
    if q.num = 0 then 0
    else .ofNat ((if q.num < 0 then Nat.pow 2 63 else 0) + magnitudeBits q.num.natAbs q.den)

end Prototypal.Number
