import Prototypal.Number.Binary

/-!
# Decimal forms

A decimal is a coefficient and a power of ten.  `shortest` finds the decimal with the fewest digits
that rounds back to a given magnitude, and of those the nearest one; where two are as near, a `Tie`
decides.
-/

namespace Prototypal

/-- `coefficient * 10 ^ exponent`. -/
structure Decimal where
  coefficient : Nat
  exponent : Int
deriving DecidableEq, Repr

namespace Decimal

/-- The numerator of the value of a decimal, not in lowest terms. -/
def num (d : Decimal) : Nat := d.coefficient * Nat.pow 10 d.exponent.toNat

/-- The denominator of the value of a decimal, not in lowest terms. -/
def den (d : Decimal) : Nat := Nat.pow 10 (-d.exponent).toNat

/-- The value of a decimal. -/
def toRat (d : Decimal) : Rat := mkRat d.num d.den

/-- The decimal digits of a natural number, the leading one first. -/
def digitsOf (n : Nat) : List Char :=
  Nat.toDigits 10 n

/-- An exponent `e` with `num / den < 10 ^ (e + 1)`, for positive `num` and `den`: the decimal
logarithm of two lies between `0.30102` and `0.30103`.  For the values of binary64 it is the least
one or the next. -/
def topExponent (num den : Nat) : Int :=
  let bits := Number.binaryExponent num den + 1
  bits * (if 0 ≤ bits then 30103 else 30102) / 100000

/-- The same value without zeros at the end of the coefficient. -/
def trimmed (d : Decimal) : Decimal :=
  let digits := digitsOf d.coefficient
  let zeros := (digits.reverse.takeWhile (· = '0')).length
  if d.coefficient = 0 then d
  else ⟨d.coefficient / Nat.pow 10 zeros, d.exponent + zeros⟩

/-- Which of two neighbours is taken for a number half way between them. -/
inductive Tie
  /-- The greater one. -/
  | upper
  /-- The one with an even coefficient. -/
  | even
deriving DecidableEq, Repr

/-- Whether the lower neighbour, of the given coefficient, is taken. -/
def Tie.takesLower : Tie → Nat → Bool
  | .upper, _ => false
  | .even, coefficient => coefficient % 2 = 0

/-- The two neighbours of the positive rational `q` among the multiples of `10 ^ exponent`, the
lower one first. -/
def neighbours (q : Rat) (exponent : Int) : Decimal × Decimal :=
  let unit : Decimal := ⟨1, exponent⟩
  let below := q.num.natAbs * unit.den / (q.den * unit.num)
  (⟨below, exponent⟩, ⟨below + 1, exponent⟩)

/-- Of two neighbours of `q` the nearer, of two as near the one that a tie goes to. -/
def nearer (tie : Tie) (q : Rat) (lower upper : Decimal) : Decimal :=
  let below := q - lower.toRat
  let above := upper.toRat - q
  if below < above ∨ below = above ∧ tie.takesLower lower.coefficient then lower else upper

/-- Whether a decimal rounds to the same number as the positive rational `q`. -/
def readsBack (q : Rat) (d : Decimal) : Bool :=
  d.coefficient ≠ 0 ∧ Number.magnitudeBits d.num d.den = Number.magnitudeBits q.num.natAbs q.den

/-- The neighbour that rounds to the same number as `q`; of two the nearer. -/
def readsBackAt? (tie : Tie) (q : Rat) (exponent : Int) : Option Decimal :=
  let (lower, upper) := neighbours q exponent
  match readsBack q lower, readsBack q upper with
  | true, true => some (nearer tie q lower upper)
  | true, false => some lower
  | false, true => some upper
  | false, false => none

/-- The decimal with the fewest digits that rounds to the same number as the positive rational `q`.
Seventeen digits tell any two binary64 values apart, and the search may start one place too high. -/
def shortest (tie : Tie) (q : Rat) : Decimal :=
  let top := topExponent q.num.natAbs q.den
  let found := (List.range 18).findSome? fun places : Nat => readsBackAt? tie q (top - places)
  (found.getD (neighbours q (top - 17)).1).trimmed

end Decimal

end Prototypal
