import Prototypal.Key

/-!
# Values

Primitive values, private names, and references to objects.  Equality of values in the logic is
sameness: equal numbers of the same sign, the same name, the same object.
-/

namespace Prototypal

/-- A reference to an object. -/
structure ObjectId where
  index : Nat
deriving DecidableEq, Repr, Inhabited

/-- A value. -/
inductive Value where
  | undefined
  | null
  | boolean (b : Bool)
  | number (n : Number)
  | string (s : String)
  | name (n : PrivateName)
  | object (o : ObjectId)
deriving DecidableEq, Repr

/-- What the type operator answers. -/
inductive TypeName where
  | undefined
  | object
  | boolean
  | number
  | string
  | function
deriving DecidableEq, Repr

/-- How a type is written. -/
def TypeName.text : TypeName → String
  | .undefined => "undefined"
  | .object => "object"
  | .boolean => "boolean"
  | .number => "number"
  | .string => "string"
  | .function => "function"

namespace Value

instance : Inhabited Value := ⟨.undefined⟩

/-- Whether the value is `undefined` or `null`. -/
def isNullish : Value → Bool
  | .undefined | .null => true
  | _ => false

/-- The boolean of a boolean value. -/
def boolean? : Value → Option Bool
  | .boolean b => some b
  | _ => none

/-- The number of a number value. -/
def number? : Value → Option Number
  | .number n => some n
  | _ => none

/-- The text of a string value. -/
def string? : Value → Option String
  | .string s => some s
  | _ => none

/-- The name of a private-name value. -/
def name? : Value → Option PrivateName
  | .name n => some n
  | _ => none

/-- The object of an object value. -/
def object? : Value → Option ObjectId
  | .object o => some o
  | _ => none

/-- An object, or `undefined` for none. -/
def ofObject? : Option ObjectId → Value
  | some o => .object o
  | none => .undefined

/-- Whether the value counts as true. -/
def isTruthy : Value → Bool
  | .undefined | .null => false
  | .boolean b => b
  | .number n => n.isTruthy
  | .string s => s ≠ ""
  | .name _ | .object _ => true

/-- The type of a value; an object counts as not callable. -/
def typeName : Value → TypeName
  | .undefined => .undefined
  | .null | .name _ | .object _ => .object
  | .boolean _ => .boolean
  | .number _ => .number
  | .string _ => .string

/-- Strict equality: numbers are compared numerically, everything else by sameness. -/
def strictEq : Value → Value → Bool
  | .number a, .number b => a.numericEq b
  | a, b => a = b

/-- Sameness: unlike strict equality, `nan` is the same as itself and the zeros differ. -/
def same (a b : Value) : Bool := a = b

theorem same_iff {a b : Value} : same a b = true ↔ a = b := by simp [same]

/-- How many elements the value announces as the `length` member of an array-like object. -/
def count (v : Value) : Nat := (v.number?.map Number.count).getD 0

end Value

end Prototypal
