import Prototypal.Value
import Prototypal.Configuration.Problem

/-!
# Faults

Every way in which an operation fails, as a cause.  A fault has a kind, which says what was
violated, and a message; the kind decides under which constructor name the fault surfaces.
-/

namespace Prototypal

/-- What a fault violates. -/
inductive FaultKind where
  /-- An unusable parent class. -/
  | construction
  /-- No inherited member to dispatch to. -/
  | dispatch
  /-- Access to the storage of private names. -/
  | access
  /-- A spread of something that cannot be spread. -/
  | spread
  /-- A rule of the object model. -/
  | type
  /-- A single-shot result in the wrong state. -/
  | state
  /-- Raised by client code. -/
  | thrown
deriving DecidableEq, Repr

/-- The constructor name under which faults of a kind surface. -/
def FaultKind.surfaceName : FaultKind → String
  | .construction | .dispatch | .spread | .type => "TypeError"
  | .access | .state | .thrown => "Error"

/-- A use of a property that needs an owner. -/
inductive Use where
  | read
  | set
  | delete
deriving DecidableEq, Repr

/-- The verb of a use. -/
def Use.text : Use → String
  | .read => "read"
  | .set => "set"
  | .delete => "delete"

/-- Why an operation failed. -/
inductive Fault where
  | invalidLength
  | pushOnNonArray
  | cyclicPrototype
  | getterOnly (key : Key)
  | readOnly (key : Key)
  | receiverNotObject (key : Key) (type : TypeName)
  | notExtensible (key : Key)
  | accessorElement (index : Nat)
  | notRedefinable (key : Key)
  | notDeletable (key : Key)
  | notCallable
  | notConstructor
  | reservedKey
  | noOwner (use : Use) (key : Key) (owner : Value)
  | defineOnPrimitive
  | invalidParent
  | invalidParentPrototype
  | superNotCallable (key : Key)
  | noSuperMethod (key : Key)
  | noSuperSetter (key : Key)
  | notIterable (text : String)
  | noMoveNext
  | notSpreadable
  | alreadyFired
  | alreadyFinished
  | cancelled
  | invalidConfiguration (problem : Configuration.Problem)
  | raised (kind : FaultKind) (message : String)
deriving DecidableEq, Repr

namespace Fault

/-- The kind of a fault. -/
def kind : Fault → FaultKind
  | .invalidParent | .invalidParentPrototype => .construction
  | .noSuperMethod _ | .noSuperSetter _ => .dispatch
  | .reservedKey => .access
  | .notSpreadable => .spread
  | .alreadyFired | .alreadyFinished | .cancelled => .state
  | .raised kind _ => kind
  | _ => .type

/-- The message of a fault. -/
def message : Fault → String
  | .invalidLength => "Invalid array length"
  | .pushOnNonArray => "push called on non-array"
  | .cyclicPrototype => "Cyclic __proto__ value"
  | .getterOnly key => s!"Cannot set property {key.display} which has only a getter"
  | .readOnly key => s!"Cannot assign to read only property '{key.display}'"
  | .receiverNotObject key type => s!"Cannot create property '{key.display}' on {type.text}"
  | .notExtensible key => s!"Cannot define property {key.display}, object is not extensible"
  | .accessorElement index => s!"Cannot define accessor for array element {index}"
  | .notRedefinable key => s!"Cannot redefine property: {key.display}"
  | .notDeletable key => s!"Cannot delete property '{key.display}'"
  | .notCallable => "object is not a function"
  | .notConstructor => "object is not a constructor"
  | .reservedKey => "Invalid access to private name"
  | .noOwner use key .undefined => s!"Cannot {use.text} property '{key.display}' of undefined"
  | .noOwner use key .null => s!"Cannot {use.text} property '{key.display}' of null"
  | .noOwner use key owner =>
    s!"Cannot {use.text} property '{key.display}' on {owner.typeName.text}"
  | .defineOnPrimitive => "Object.defineProperty called on non-object"
  | .invalidParent => "Can only extend objects or null"
  | .invalidParentPrototype => "Super prototype must be an object or null"
  | .superNotCallable key => s!"super.{key.display} is not a function"
  | .noSuperMethod key => s!"Object has no method '{key.display}'."
  | .noSuperSetter key => s!"Object has no setter '{key.display}'."
  | .notIterable text => s!"{text} is not iterable"
  | .noMoveNext => "iterator has no moveNext method"
  | .notSpreadable => "Spread expression has wrong type"
  | .alreadyFired => "already fired"
  | .alreadyFinished => "already finished"
  | .cancelled => "cancelled"
  | .invalidConfiguration problem => s!"Invalid runtime configuration: {problem.text}"
  | .raised _ message => message

/-- The constructor name under which the fault surfaces. -/
def surfaceName (f : Fault) : String := f.kind.surfaceName

/-- The fault on one line. -/
def text (f : Fault) : String := s!"{f.surfaceName}: {f.message}"

end Fault

end Prototypal
