/-!
# Numbers

A number is a binary64 value.  Its finite part is kept as a rational, so that equality of numbers is
equality of values and arithmetic on lengths and indices is exact.
-/

namespace Prototypal

/-- A number: not a number, an infinity, negative zero, or a rational (positive zero included). -/
inductive Number where
  | nan
  | infinity (negative : Bool)
  | negativeZero
  | finite (value : Rat)
deriving DecidableEq, Inhabited, Repr

namespace Number

/-- A natural number as a number. -/
def ofNat (n : Nat) : Number := .finite n

/-- The number with the sign of zero forgotten. -/
def unsignedZero : Number → Number
  | .negativeZero => .finite 0
  | n => n

/-- Numeric equality: `nan` equals nothing, and the two zeros are equal. -/
def numericEq (a b : Number) : Bool :=
  a ≠ .nan && a.unsignedZero = b.unsignedZero

/-- The value of a finite number. -/
def toRat? : Number → Option Rat
  | .finite q => some q
  | .negativeZero => some 0
  | .nan | .infinity _ => none

/-- Whether the number is a whole number. -/
def isIntegral (n : Number) : Bool :=
  n.toRat?.any fun q => q.den = 1

/-- Zeros and `nan` are false, every other number is true. -/
def isTruthy : Number → Bool
  | .nan | .negativeZero => false
  | .infinity _ => true
  | .finite q => q ≠ 0

/-! ## Lengths and counts -/

/-- The largest length of an array. -/
def maxLength : Nat := Nat.pow 2 32 - 1

/-- The largest count a machine word holds. -/
def maxCount : Nat := Nat.pow 2 64 - 1

/-- The array length a number stands for: a whole number from zero to `maxLength`. -/
def length? (n : Number) : Option Nat :=
  n.toRat?.bind fun q =>
    if q.den = 1 ∧ 0 ≤ q.num ∧ q.num.toNat ≤ maxLength then some q.num.toNat else none

/-- How many elements a `length` member announces: the whole part of a positive number, at most
`maxCount`, and nothing for any other number. -/
def count : Number → Nat
  | .finite q => min q.floor.toNat maxCount
  | .infinity false => maxCount
  | .infinity true | .negativeZero | .nan => 0

theorem length?_ofNat {n : Nat} (h : n ≤ maxLength) : (ofNat n).length? = some n := by
  simp only [length?, ofNat, toRat?, Option.bind_some, Rat.den_natCast, Rat.num_natCast,
    Int.toNat_natCast]
  simp [h]

theorem count_ofNat {n : Nat} (h : n ≤ maxCount) : (ofNat n).count = n := by
  simp [count, ofNat, Rat.floor, Nat.min_eq_left h]

end Number

end Prototypal
