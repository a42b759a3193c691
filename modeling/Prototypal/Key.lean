import Prototypal.Name.PrivateName
import Prototypal.Number.Basic

/-!
# Property keys

A property is stored under a text or under a private name.  A text that is the decimal form of an
array index stands for an element of an array.
-/

namespace Prototypal

/-- A property key. -/
inductive Key where
  | text (text : String)
  | name (name : PrivateName)
deriving DecidableEq, Repr

namespace Key

/-- The text of an ordinary key. -/
def text? : Key → Option String
  | .text s => some s
  | .name _ => none

/-- The name of a private key. -/
def name? : Key → Option PrivateName
  | .text _ => none
  | .name n => some n

/-- Whether the key is a private name. -/
def isName (k : Key) : Bool := k.name?.isSome

/-- How the key is written in messages. -/
def display : Key → String
  | .text s => s
  | .name n => n.display

/-- The largest array index. -/
def maxIndex : Nat := Number.maxLength - 1

/-- The number written by ASCII digits, if it has no leading zero. -/
def decimal? (chars : List Char) : Option Nat :=
  match chars with
  | [] => none
  | ['0'] => some 0
  | '0' :: _ => none
  | _ =>
    if chars.all Char.isDigit then
      some (chars.foldl (fun value c => 10 * value + (c.toNat - '0'.toNat)) 0)
    else none

/-- How many digits an array index has at most; a longer text exceeds every index and is not read.
-/
def maxIndexDigits : Nat := 10

/-- The array index that a key stands for. -/
def index? (k : Key) : Option Nat :=
  ((k.text?.filter (·.length ≤ maxIndexDigits)).bind fun s => decimal? s.toList).filter
    (· ≤ maxIndex)

/-- The key of an array index. -/
def ofIndex (i : Nat) : Key := .text (Nat.repr i)

/-- The key of the length of an array. -/
def length : Key := .text "length"

/-- The key of the object that instances of a constructor inherit from. -/
def prototype : Key := .text "prototype"

/-- The key of the constructor of an object. -/
def constructor : Key := .text "constructor"

/-- The key of the element that an iterator stands at. -/
def current : Key := .text "current"

/-- The key of the method that moves an iterator. -/
def moveNext : Key := .text "moveNext"

end Key

end Prototypal
