import Prototypal.Property.Basic

/-!
# Redefinition

When a stored property may be changed by a descriptor, and what it becomes.
-/

namespace Prototypal

namespace Slot

/-- Whether a slot of a fixed property may take the named fields: a read-only value stays as it is,
and so does each function. -/
def admits : Slot → Descriptor → Bool
  | .data _ true, _ => true
  | .data value false, d => d.writable != some true && d.value.all (·.same value)
  | .accessor getter setter, d =>
    (d.getter.isNone || d.getterObject? == getter) && (d.setter.isNone || d.setterObject? == setter)

/-- The slot in the form that the descriptor calls for, emptied if the form changes. -/
def formed (s : Slot) (d : Descriptor) : Slot :=
  if d.isAccessor && !s.isAccessor then .accessor none none
  else if d.isData && s.isAccessor then .data .undefined false
  else s

/-- The slot with the fields of its form replaced where they are named. -/
def updated : Slot → Descriptor → Slot
  | .data value writable, d => .data (d.value.getD value) (d.writable.getD writable)
  | .accessor getter setter, d =>
    .accessor (if d.getter.isSome then d.getterObject? else getter)
      (if d.setter.isSome then d.setterObject? else setter)

end Slot

namespace Property

/-- Whether a definition may change the property: anything is possible while it is configurable, and
afterwards neither its form nor its attributes change, nor a read-only value. -/
def admits (p : Property) (d : Descriptor) : Bool :=
  p.configurable ||
    (d.configurable != some true && d.enumerable.all (· == p.enumerable) &&
      (d.isGeneric || (d.isAccessor == p.isAccessor && p.slot.admits d)))

/-- The property with the named fields replaced. -/
def merged (p : Property) (d : Descriptor) : Property where
  slot := (p.slot.formed d).updated d
  enumerable := d.enumerable.getD p.enumerable
  configurable := d.configurable.getD p.configurable

end Property

end Prototypal
