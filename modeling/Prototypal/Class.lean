import Prototypal.Call

/-!
# Classes

A class is a constructor whose `prototype` holds copies of the members of the class and inherits
from the prototype of the parent class.  Inherited members are looked up from one level above it.
-/

namespace Prototypal.Class

variable {κ σ : Type}

/-- A new object with the given prototype and a copy of each own property of `source`, in order. -/
def copyOnto (prototype : Option ObjectId) (source : ObjectId) : Run κ σ ObjectId := do
  let target ← Run.allocate (.make .ordinary prototype)
  let keys ← Run.viewHeap fun h => (h.get source).ownKeys
  keys.forM fun k => do
    match ← Run.viewHeap fun h => (h.get source).getOwn k with
    | some p => Run.change target (·.define k p.toDescriptor)
    | none => pure ()
  pure target

/-- Takes the listed own properties out of enumeration and gives the object. -/
def markMethods (o : ObjectId) (names : List String) : Run κ σ ObjectId := do
  names.forM fun s => Run.change o (·.define (.text s) { enumerable := some false })
  pure o

variable (exec : Exec κ σ)

/-- The object that the members of a class inherit from.  A parent with a `prototype` passes that
on, and the constructor inherits from the parent; a parent without one is inherited from itself. -/
def inheritFrom (constructor : ObjectId) (parent : Option ObjectId) :
    Run κ σ (Option ObjectId) := do
  match parent with
  | none => pure none
  | some p =>
    if ← Run.viewHeap (·.has p .prototype) then
      Run.setPrototype constructor (some p)
      match ← Member.get exec p .prototype (.object p) with
      | .null => pure none
      | .object q => pure (some q)
      | _ => Run.fail .invalidParentPrototype
    else pure (some p)

/-- Makes a class of a constructor, the object that holds its members, and its parent: an object, or
`null` for none. -/
def create (constructor members : ObjectId) (parent : Value) : Run κ σ ObjectId := do
  let parent ← match parent with
    | .null => pure none
    | .object p => pure (some p)
    | _ => Run.fail .invalidParent
  Run.change members (·.define .constructor (.onlyValue (.object constructor)))
  let above ← inheritFrom exec constructor parent
  let prototype ← copyOnto above members
  Run.change constructor (·.define .prototype (.onlyValue (.object prototype)))
  pure constructor

/-! ## Inherited members -/

/-- The slot of the nearest property above the `prototype` of a constructor. -/
def inheritedSlot (constructor : ObjectId) (k : Key) : Run κ σ (Option Slot) := do
  let own ← Member.get exec constructor .prototype (.object constructor)
  Run.viewHeap fun h => do
    let o ← own.object?
    let above ← (h.get o).prototype
    h.findSlot above k

/-- Calls an inherited method on `self`. -/
def superCall (self : Value) (constructor : ObjectId) (k : Key) (arguments : List Value) :
    Run κ σ Value := do
  match ← inheritedSlot exec constructor k with
  | some (.data v _) =>
    match ← Run.viewHeap (·.callable? v) with
    | some f => call exec f self arguments
    | none => Run.fail (.noSuperMethod k)
  | some (.accessor (some getter) _) =>
    let method ← call exec getter self []
    match ← Run.viewHeap (·.callable? method) with
    | some f => call exec f self arguments
    | none => Run.fail (.superNotCallable k)
  | some (.accessor none _) | none => Run.fail (.noSuperMethod k)

/-- Reads an inherited member of `self`; an absent one is `undefined`. -/
def superGet (self : Value) (constructor : ObjectId) (k : Key) : Run κ σ Value := do
  match ← inheritedSlot exec constructor k with
  | some (.data v _) => pure v
  | some (.accessor (some getter) _) => call exec getter self []
  | some (.accessor none _) | none => pure .undefined

/-- Runs an inherited setter on `self`. -/
def superSet (self : Value) (constructor : ObjectId) (k : Key) (v : Value) : Run κ σ Unit := do
  match ← inheritedSlot exec constructor k with
  | some (.accessor _ (some setter)) => discard <| call exec setter self [v]
  | _ => Run.fail (.noSuperSetter k)

end Prototypal.Class
