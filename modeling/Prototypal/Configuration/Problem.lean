import Prototypal.Number.Layout
import Prototypal.Text.Quoted

/-!
# Problems in configuration documents

What can be wrong with a configuration document, where, and how it is reported.
-/

namespace Prototypal.Configuration

/-- An option of a configuration. -/
inductive Field where
  | randomizeKeys
  | iterableArrays
deriving DecidableEq, Repr

/-- The name of an option in a document. -/
def Field.text : Field → String
  | .randomizeKeys => "randomize_keys"
  | .iterableArrays => "iterable_arrays"

/-- A value of the wrong type, as far as it was read. -/
inductive Found where
  | null
  | boolean (b : Bool)
  | integer (i : Int)
  | float (n : Number)
  | string (s : String)
  | sequence
  | map
deriving DecidableEq, Repr

/-- How a value of the wrong type is reported. -/
def Found.text : Found → String
  | .null => "null"
  | .boolean b => s!"boolean `{b}`"
  | .integer i => s!"integer `{i}`"
  | .float n => s!"floating point `{n.describe .document}`"
  | .string s => s!"string {Text.quoted s}"
  | .sequence => "sequence"
  | .map => "map"

/-- What a place of a document calls for. -/
inductive Expected where
  | configuration
  | boolean
deriving DecidableEq, Repr

/-- How the wanted type is reported. -/
def Expected.text : Expected → String
  | .configuration => "struct RuntimeConfig"
  | .boolean => "a boolean"

/-- What is wrong with a document. -/
inductive Cause where
  | valueEnds
  | objectEnds
  | listEnds
  | stringEnds
  | noValue
  | noWord
  | noColon
  | objectUnclosed
  | listUnclosed
  | keyNotString
  | trailingComma
  | trailingCharacters
  | invalidNumber
  | numberOutOfRange
  | invalidEscape
  | loneSurrogate
  | unpairedSurrogate
  | controlCharacter
  | wrongType (found : Found) (expected : Expected)
  | duplicate (field : Field)
deriving DecidableEq, Repr

/-- How a cause is reported. -/
def Cause.text : Cause → String
  | .valueEnds => "EOF while parsing a value"
  | .objectEnds => "EOF while parsing an object"
  | .listEnds => "EOF while parsing a list"
  | .stringEnds => "EOF while parsing a string"
  | .noValue => "expected value"
  | .noWord => "expected ident"
  | .noColon => "expected `:`"
  | .objectUnclosed => "expected `,` or `\x7d`"
  | .listUnclosed => "expected `,` or `]`"
  | .keyNotString => "key must be a string"
  | .trailingComma => "trailing comma"
  | .trailingCharacters => "trailing characters"
  | .invalidNumber => "invalid number"
  | .numberOutOfRange => "number out of range"
  | .invalidEscape => "invalid escape"
  | .loneSurrogate => "lone leading surrogate in hex escape"
  | .unpairedSurrogate => "unexpected end of hex escape"
  | .controlCharacter => "control character (\\u0000-\\u001F) found while parsing a string"
  | .wrongType found expected => s!"invalid type: {found.text}, expected {expected.text}"
  | .duplicate field => s!"duplicate field `{field.text}`"

/-- A cause and its place: lines count from one, columns are bytes of the line. -/
structure Problem where
  cause : Cause
  line : Nat
  column : Nat
deriving DecidableEq, Repr

/-- How a problem is reported. -/
def Problem.text (p : Problem) : String :=
  s!"{p.cause.text} at line {p.line} column {p.column}"

end Prototypal.Configuration
