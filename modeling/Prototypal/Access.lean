import Prototypal.Call
import Prototypal.Text.Characters

/-!
# Access with private names

Property access for client code.  A private name leads to the property stored under it, hidden from
enumeration; a text that has the shape of a storage key is treated as if no property had it, and
writing it is a fault; every other text leads to the property as it is.
-/

namespace Prototypal

/-- Whether a key is a text with the shape of a storage key. -/
def Key.isReserved : Key → Bool
  | .text s => StorageKey.isReserved s
  | .name _ => false

/-- A member of a text: its length, and its characters by index. -/
def Text.member (s : String) (k : Key) : Value :=
  if k = .length then .number (.ofNat s.length)
  else ((k.index?.bind (charAt? s)).map .string).getD .undefined

namespace Access

variable {κ σ : Type}

/-! ## Questions -/

/-- Whether a property is found on the chain of the owner. -/
def has (h : Heap κ) (owner : Value) (k : Key) : Bool :=
  !k.isReserved && owner.object?.any fun o => h.has o k

/-- Whether the owner itself has a property. -/
def hasOwn (h : Heap κ) (owner : Value) (k : Key) : Bool :=
  !k.isReserved && owner.object?.any fun o => ((h.get o).getOwn k).isSome

/-- The descriptor of the nearest property on the chain of the owner. -/
def descriptor? (h : Heap κ) (owner : Value) (k : Key) : Option Descriptor :=
  if k.isReserved then none
  else (owner.object?.bind fun o => h.find o k).map (·.toDescriptor)

/-- The own text keys of the owner, without those that have the shape of a storage key. -/
def names (h : Heap κ) (owner : Value) : List String :=
  match owner with
  | .object o => (h.get o).ownNames.filter fun s => !StorageKey.isReserved s
  | _ => []

/-! ## Reading and writing -/

variable (exec : Exec κ σ)

/-- Reads a property. -/
def get (owner : Value) (k : Key) : Run κ σ Value :=
  if k.isReserved then pure .undefined
  else
    match owner with
    | .object o => Member.get exec o k owner
    | .undefined | .null => Run.fail (.noOwner .read k owner)
    | .string s => pure (Text.member s k)
    | _ => pure .undefined

/-- Assigns a property.  A private name found nowhere on the chain becomes an own property, hidden
from enumeration. -/
def set (owner : Value) (k : Key) (v : Value) : Run κ σ Unit := do
  if k.isReserved then Run.fail .reservedKey
  else
    match owner with
    | .object o =>
      if k.isName && !(← Run.viewHeap (·.has o k)) then
        Run.change o (·.define k (.hidden v))
      else Member.set exec o k v owner
    | _ => Run.fail (.noOwner .set k owner)

/-- Deletes an own property. -/
def delete (owner : Value) (k : Key) : Run κ σ Bool := do
  if k.isReserved then pure true
  else
    match owner with
    | .object o => Run.change o (·.delete k); pure true
    | .undefined | .null => Run.fail (.noOwner .delete k owner)
    | _ => pure true

/-- Defines an own property; one under a private name is never enumerable. -/
def define (owner : Value) (k : Key) (d : Descriptor) : Run κ σ Unit :=
  match owner with
  | .object o =>
    if k.isReserved then Run.fail .reservedKey
    else if k.isName then Run.change o (·.define k { d with enumerable := some false })
    else Run.change o (·.define k d)
  | _ => Run.fail .defineOnPrimitive

/-! ## Laws -/

variable {exec}

theorem get_of_unreserved {o : ObjectId} {k : Key} (hk : k.isReserved = false) :
    get exec (.object o) k = Member.get exec o k (.object o) := by
  simp [get, hk]

end Access

end Prototypal
