import Prototypal.Text.DecimalDigit

/-!
# Storage keys

The reserved text under which a private name is stored: `__$`, digits, `$`, digits, `$__`.  `write`
makes such a text, `Shape` is the grammar, and `isReserved` recognises it.
-/

namespace Prototypal.StorageKey

open Text (isDecimalDigit)

/-- The storage key with the given random part and count. -/
def write (random count : Nat) : String :=
  String.ofList ("__$".toList ++ Nat.toDigits 10 random ++ '$' :: Nat.toDigits 10 count ++
    "$__".toList)

/-- A non-empty run of decimal digits. -/
def DigitRun (run : List Char) : Prop :=
  run ≠ [] ∧ ∀ c ∈ run, isDecimalDigit c = true

/-- The characters of a reserved text. -/
def Shape (chars : List Char) : Prop :=
  ∃ first second, DigitRun first ∧ DigitRun second ∧
    chars = "__$".toList ++ first ++ '$' :: second ++ "$__".toList

/-- What follows a non-empty run of decimal digits. -/
def afterDigits? (chars : List Char) : Option (List Char) :=
  if (chars.takeWhile isDecimalDigit).isEmpty then none
  else some (chars.dropWhile isDecimalDigit)

/-- What follows `start`. -/
def after? (start : String) (chars : List Char) : Option (List Char) :=
  if start.toList.isPrefixOf chars then some (chars.drop start.toList.length) else none

/-- Whether a text has the shape of a storage key. -/
def isReserved (text : String) : Bool :=
  let rest := do
    let chars ← after? "__$" text.toList
    let chars ← afterDigits? chars
    let chars ← after? "$" chars
    let chars ← afterDigits? chars
    after? "$__" chars
  rest == some []

end Prototypal.StorageKey
