import Prototypal.Number.Decimal

/-!
# Number text

How the digits of a number are laid out: always positional in the text of a value, with an exponent
outside a range in diagnostics.
-/

namespace Prototypal

/-! ## Layouts of a decimal -/

/-- How a layout writes a number. -/
structure Layout where
  /-- Whether a positive or negative power of ten, in scientific notation, is written positionally.
  -/
  positional : Int → Bool
  /-- Whether a whole number ends in `.0`. -/
  wholePoint : Bool
  /-- Whether an exponent that is not negative has a plus sign. -/
  plusSign : Bool
  /-- Which of two shortest decimals as near is written. -/
  tie : Decimal.Tie

namespace Layout

/-- The text of a value: no exponent, however long the digits get. -/
def value : Layout := ⟨fun _ => true, false, false, .upper⟩

/-- Diagnostics of values: positional from `1e-4` up to, not including, `1e16`. -/
def diagnostic : Layout := ⟨fun e => -4 ≤ e && e < 16, true, false, .upper⟩

/-- Diagnostics of documents: positional from `1e-5` up to, not including, `1e+16`. -/
def document : Layout := ⟨fun e => -5 ≤ e && e < 16, true, true, .even⟩

/-- `n` zeros. -/
def zeros (n : Nat) : List Char := List.replicate n '0'

/-- Digits with the point after the first `point` of them, zeros filled in on either side. -/
def positionalDigits (wholePoint : Bool) (digits : List Char) (point : Int) : List Char :=
  if point ≤ 0 then '0' :: '.' :: (zeros (-point).toNat ++ digits)
  else if digits.length ≤ point.toNat then
    digits ++ zeros (point.toNat - digits.length) ++ (if wholePoint then ['.', '0'] else [])
  else digits.take point.toNat ++ '.' :: digits.drop point.toNat

/-- One digit, the others after a point, and the power of ten. -/
def scientificDigits (plusSign : Bool) (digits : List Char) (exponent : Int) : List Char :=
  let rest := digits.drop 1
  let sign := if plusSign && 0 ≤ exponent then ['+'] else []
  digits.take 1 ++ (if rest.isEmpty then [] else '.' :: rest) ++
    'e' :: (sign ++ (toString exponent).toList)

/-- The text of a decimal. -/
def decimal (l : Layout) (d : Decimal) : String :=
  let digits := Decimal.digitsOf d.coefficient
  let exponent := d.exponent + digits.length - 1
  String.ofList <|
    if l.positional exponent then positionalDigits l.wholePoint digits (exponent + 1)
    else scientificDigits l.plusSign digits exponent

/-- The text of a rational: its sign and its shortest digits. -/
def rational (l : Layout) (q : Rat) : String :=
  let sign := if q < 0 then "-" else ""
  if q = 0 then l.decimal ⟨0, 0⟩ else sign ++ l.decimal (Decimal.shortest l.tie q.abs)

end Layout

/-! ## Text of a number -/

namespace Number

/-- The text of a number as a value: a whole number below `10 ^ 15` is written exactly and without
the sign of zero, any other one with its shortest digits. -/
def toText : Number → String
  | .nan => "NaN"
  | .infinity negative => if negative then "-Infinity" else "Infinity"
  | .negativeZero => "0"
  | .finite q =>
    if q.den = 1 ∧ q.num.natAbs < Nat.pow 10 15 then toString q.num else Layout.value.rational q

/-- The text of a number in diagnostics. -/
def describe (l : Layout) : Number → String
  | .nan => "NaN"
  | .infinity negative => if negative then "-inf" else "inf"
  | .negativeZero => "-" ++ l.rational 0
  | .finite q => l.rational q

end Number

end Prototypal
