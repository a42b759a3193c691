import Prototypal.Configuration.Basic
import Prototypal.Configuration.Scalar

/-!
# Configuration documents

A configuration is written as an object, whose unknown members are passed over, or as a list of the
options in a fixed order.  Options that are left out take their defaults.
-/

namespace Prototypal.Configuration

namespace Reader

/-! ## Values that are passed over -/

/-- Passes over the colon after the name of a member. -/
def colon : Reader Unit := do
  match ← token with
  | none => failNext .objectEnds
  | some ':' => skip
  | some _ => failNext .noColon

/-- What a value that is passed over stands in. -/
inductive Nesting
  /-- A list, whose items are values. -/
  | list
  /-- An object, whose members are names and values. -/
  | object
deriving DecidableEq, Repr

/-- Passes over the name of a member and its colon. -/
def skipName : Reader Unit := do
  match ← token with
  | none => failNext .objectEnds
  | some '"' => skip; skipString
  | some _ => failNext .keyNotString
  colon

/-- Passes over a value, or enters one that has values in it, up to the first of them. -/
def enterValue : Reader (Option Nesting) := do
  match ← token with
  | none => failNext .valueEnds
  | some 'n' => skip; word ['u', 'l', 'l']; return none
  | some 't' => skip; word ['r', 'u', 'e']; return none
  | some 'f' => skip; word ['a', 'l', 's', 'e']; return none
  | some '-' => skip; skipNumber; return none
  | some '"' => skip; skipString; return none
  | some '[' =>
    skip
    match ← token with
    | none => failNext .listEnds
    | some ']' => skip; return none
    | some _ => return some .list
  | some '\x7b' =>
    skip
    match ← token with
    | none => failNext .objectEnds
    | some '\x7d' => skip; return none
    | some _ => skipName; return some .object
  | some c => if c.isDigit then skipNumber; return none else failNext .noValue

/-- Leaves what ends after a value, the innermost first: what the next value stands in. -/
def leaveValues : List Nesting → Reader (List Nesting)
  | [] => return []
  | .list :: outer => do
    match ← token with
    | none => failNext .listEnds
    | some ',' => skip; return .list :: outer
    | some ']' => skip; leaveValues outer
    | some _ => failNext .listUnclosed
  | .object :: outer => do
    match ← token with
    | none => failNext .objectEnds
    | some ',' => skip; skipName; return .object :: outer
    | some '\x7d' => skip; leaveValues outer
    | some _ => failNext .objectUnclosed

/-- Passes over a value and all that follows in what it stands in, in fewer rounds than the fuel;
every round passes over a byte. -/
def skipWithin : Nat → List Nesting → Reader Unit
  | 0, _ => failNext .valueEnds
  | n + 1, around => do
    let around ← match ← enterValue with
      | some inner => pure (inner :: around)
      | none => leaveValues around
    if !around.isEmpty then skipWithin n around

/-- Passes over a value. -/
def skipValue : Reader Unit := do
  skipWithin ((← get).size + 1) []

/-! ## Options -/

/-- Reports the value that is next as one of the wrong type. -/
def wrongType {α : Type} (expected : Expected) : Reader α := do
  let report (found : Found) : Reader α := failHere (.wrongType found expected)
  match ← peek with
  | some 'n' => skip; word ['u', 'l', 'l']; report .null
  | some 't' => skip; word ['r', 'u', 'e']; report (.boolean true)
  | some 'f' => skip; word ['a', 'l', 's', 'e']; report (.boolean false)
  | some '-' => skip; report (← number true)
  | some '"' => skip; report (.string (← string))
  | some '[' => report .sequence
  | some '\x7b' => report .map
  | some c => if c.isDigit then report (← number false) else failNext .noValue
  | none => failNext .noValue

/-- The value of an option. -/
def boolean : Reader Bool := do
  match ← token with
  | none => failNext .valueEnds
  | some 't' => skip; word ['r', 'u', 'e']; return true
  | some 'f' => skip; word ['a', 'l', 's', 'e']; return false
  | some _ => wrongType .boolean

/-- The options that were given. -/
structure Given where
  randomizeKeys : Option Bool := none
  iterableArrays : Option Bool := none

/-- The option that a member names. -/
def field? (name : String) : Option Field :=
  if name = Field.randomizeKeys.text then some .randomizeKeys
  else if name = Field.iterableArrays.text then some .iterableArrays
  else none

/-- What was given for an option. -/
def Given.get (g : Given) : Field → Option Bool
  | .randomizeKeys => g.randomizeKeys
  | .iterableArrays => g.iterableArrays

/-- The options with one more given. -/
def Given.set (g : Given) (b : Bool) : Field → Given
  | .randomizeKeys => { g with randomizeKeys := some b }
  | .iterableArrays => { g with iterableArrays := some b }

/-- A configuration of given options and defaults. -/
def Given.configuration (g : Given) : Configuration :=
  ⟨g.randomizeKeys.getD true, g.iterableArrays.getD true⟩

/-- Whether another member follows; the next byte is then the quote of its name. -/
def moreMembers (first : Bool) : Reader Bool := do
  match ← token with
  | none => failNext .objectEnds
  | some '\x7d' => return false
  | some c =>
    if first then
      if c = '"' then return true else failNext .keyNotString
    else if c = ',' then
      skip
      match ← token with
      | none => failNext .valueEnds
      | some '"' => return true
      | some '\x7d' => failNext .trailingComma
      | some _ => failNext .keyNotString
    else failNext .objectUnclosed

/-- Reports an option that was given before.  The place is where the object would end. -/
def duplicate {α : Type} (f : Field) : Reader α := do
  if (← token) = some '\x7d' then skip
  failHere (.duplicate f)

/-- The options of an object of fewer members than the fuel, and its end. -/
def members : Nat → Bool → Given → Reader Given
  | 0, _, _ => failNext .objectEnds
  | n + 1, first, given => do
    if ← moreMembers first then
      skip
      match field? (← string) with
      | some f =>
        if (given.get f).isSome then duplicate f
        else
          colon
          members n false (given.set (← boolean) f)
      | none =>
        colon
        skipValue
        members n false given
    else
      skip
      return given

/-- The next item of a list, if there is one. -/
def item (first : Bool) : Reader (Option Bool) := do
  match ← token with
  | none => failNext .listEnds
  | some ']' => return none
  | some c =>
    if first then some <$> boolean
    else if c = ',' then
      skip
      match ← token with
      | none => failNext .valueEnds
      | some ']' => failNext .trailingComma
      | some _ => some <$> boolean
    else failNext .listUnclosed

/-- The end of a list. -/
def listEnd : Reader Unit := do
  match ← token with
  | none => failNext .listEnds
  | some ']' => skip
  | some ',' =>
    skip
    if (← token) = some ']' then failNext .trailingComma else failNext .trailingCharacters
  | some _ => failNext .trailingCharacters

/-- The options of a list, and its end. -/
def items : Reader Given := do
  let randomizeKeys ← item true
  let iterableArrays ← item randomizeKeys.isNone
  listEnd
  return ⟨randomizeKeys, iterableArrays⟩

/-- A configuration, with nothing but blanks around it. -/
def document : Reader Configuration := do
  let given ← match ← token with
    | none => failNext .valueEnds
    | some '[' => skip; items
    | some '\x7b' => do skip; members ((← get).size + 1) true {}
    | some _ => wrongType .configuration
  if (← token).isSome then failNext .trailingCharacters
  return given.configuration

end Reader

/-- Reads a configuration document. -/
def ofDocument (text : String) : Except Problem Configuration :=
  match Reader.document.run (Input.ofText text) with
  | .ok (configuration, _) => .ok configuration
  | .error failure => .error (failure.problem text)

end Prototypal.Configuration
