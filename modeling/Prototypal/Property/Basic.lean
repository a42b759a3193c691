import Prototypal.Value

/-!
# Properties and descriptors

A `Property` is what an object stores: a slot and its attributes.  A `Descriptor` names some fields
of a property; it is what definitions take and what reflection gives.
-/

namespace Prototypal

/-- The stored value of a property, or the functions that stand in for it. -/
inductive Slot where
  | data (value : Value) (writable : Bool)
  | accessor (getter setter : Option ObjectId)
deriving DecidableEq, Repr

/-- A stored property. -/
structure Property where
  slot : Slot
  enumerable : Bool
  configurable : Bool
deriving DecidableEq, Repr

/-- Some of the fields of a property. -/
structure Descriptor where
  value : Option Value := none
  writable : Option Bool := none
  getter : Option Value := none
  setter : Option Value := none
  enumerable : Option Bool := none
  configurable : Option Bool := none
deriving DecidableEq, Repr

/-- Whether a slot holds functions. -/
def Slot.isAccessor : Slot → Bool
  | .data _ _ => false
  | .accessor _ _ => true

namespace Descriptor

/-- A writable, enumerable, configurable value. -/
def data (v : Value) : Descriptor :=
  { value := some v, writable := some true, enumerable := some true, configurable := some true }

/-- A writable, configurable value that enumeration leaves out. -/
def hidden (v : Value) : Descriptor :=
  { value := some v, writable := some true, enumerable := some false, configurable := some true }

/-- A value and nothing else. -/
def onlyValue (v : Value) : Descriptor := { value := some v }

/-- An enumerable, configurable pair of functions. -/
def accessor (getter setter : Option ObjectId) : Descriptor :=
  { getter := some (.ofObject? getter), setter := some (.ofObject? setter),
    enumerable := some true, configurable := some true }

/-- Whether a field of a data property is named. -/
def isData (d : Descriptor) : Bool := d.value.isSome || d.writable.isSome

/-- Whether a field of an accessor property is named. -/
def isAccessor (d : Descriptor) : Bool := d.getter.isSome || d.setter.isSome

/-- Whether only attributes common to both are named. -/
def isGeneric (d : Descriptor) : Bool := !d.isData && !d.isAccessor

/-- The getter that a definition stores: an object, whether or not it can be called. -/
def getterObject? (d : Descriptor) : Option ObjectId := d.getter.bind Value.object?

/-- The setter that a definition stores: an object, whether or not it can be called. -/
def setterObject? (d : Descriptor) : Option ObjectId := d.setter.bind Value.object?

end Descriptor

namespace Property

/-- A writable, enumerable, configurable value. -/
def data (v : Value) : Property := ⟨.data v true, true, true⟩

/-- A writable, configurable value that enumeration leaves out. -/
def hidden (v : Value) : Property := ⟨.data v true, false, true⟩

/-- Whether the property holds functions. -/
def isAccessor (p : Property) : Bool := p.slot.isAccessor

/-- A new property with the named fields; what is not named is absent or false. -/
def ofDescriptor (d : Descriptor) : Property where
  slot :=
    if d.isAccessor then .accessor d.getterObject? d.setterObject?
    else .data (d.value.getD .undefined) (d.writable.getD false)
  enumerable := d.enumerable.getD false
  configurable := d.configurable.getD false

/-- The descriptor that names every field of the property. -/
def toDescriptor (p : Property) : Descriptor :=
  match p.slot with
  | .data value writable =>
    { value := some value, writable := some writable,
      enumerable := some p.enumerable, configurable := some p.configurable }
  | .accessor getter setter =>
    { getter := some (.ofObject? getter), setter := some (.ofObject? setter),
      enumerable := some p.enumerable, configurable := some p.configurable }

theorem ofDescriptor_toDescriptor (p : Property) : ofDescriptor p.toDescriptor = p := by
  obtain ⟨slot, enumerable, configurable⟩ := p
  match slot with
  | .data value writable => rfl
  | .accessor getter setter => cases getter <;> cases setter <;> rfl

end Property

end Prototypal
