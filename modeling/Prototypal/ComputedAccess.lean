import Prototypal.Access

/-!
# Computed access

Access with a key that is a value.  An object takes it over by a function under the well-known name
of the access; otherwise the value stands for a property key.
-/

namespace Prototypal.ComputedAccess

variable {κ σ : Type}

/-- Whether a property is found on the chain of the owner; no function takes this over. -/
def has (h : Heap κ) (owner key : Value) : Bool := Access.has h owner (h.key key)

variable (exec : Exec κ σ)

/-- The function that takes over an access: the callable value of the nearest property under the
name, read through its getter. -/
def trap (owner : Value) (name : PrivateName) : Run κ σ (Option ObjectId) := do
  match owner with
  | .object o =>
    if ← Run.viewHeap (·.has o (.name name)) then
      let handler ← Member.get exec o (.name name) owner
      Run.viewHeap (·.callable? handler)
    else pure none
  | _ => pure none

/-- Reads a property. -/
def get (owner key : Value) : Run κ σ Value := do
  match ← trap exec owner (← Run.view (·.wellKnown)).elementGet with
  | some f => call exec f owner [key]
  | none => Access.get exec owner (← Run.viewHeap (·.key key))

/-- Assigns a property and gives the assigned value. -/
def set (owner key v : Value) : Run κ σ Value := do
  match ← trap exec owner (← Run.view (·.wellKnown)).elementSet with
  | some f => discard <| call exec f owner [key, v]
  | none => Access.set exec owner (← Run.viewHeap (·.key key)) v
  pure v

/-- Deletes a property. -/
def delete (owner key : Value) : Run κ σ Bool := do
  match ← trap exec owner (← Run.view (·.wellKnown)).elementDelete with
  | some f => return (← call exec f owner [key]).isTruthy
  | none => Access.delete owner (← Run.viewHeap (·.key key))

end Prototypal.ComputedAccess
