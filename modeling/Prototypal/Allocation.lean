import Prototypal.Run

/-!
# New objects

Objects, functions, constructors and arrays as client code makes them.
-/

namespace Prototypal.Allocation

variable {κ σ : Type}

/-- An ordinary object. -/
def ordinary (prototype : Option ObjectId) : Run κ σ ObjectId :=
  Run.allocate (.make .ordinary prototype)

/-- A function that runs client code. -/
def function (name : String) (code : κ) : Run κ σ ObjectId :=
  Run.allocate (.make (.function name (.client code)) none)

/-- A function with an own `prototype` object, whose `constructor` is the function.  Neither is
enumerable, and the function keeps its `prototype` for good. -/
def constructor (name : String) (code : κ) : Run κ σ ObjectId := do
  let prototype ← ordinary none
  let f ← Run.allocate
    { Object.make (.function name (.client code)) none with
      table := .ofList [(.prototype, ⟨.data (.object prototype) true, false, false⟩)] }
  Run.change prototype (·.define .constructor (.hidden (.object f)))
  pure f

/-- An array of the given elements. -/
def array (elements : List Value) (prototype : Option ObjectId) : Run κ σ ObjectId :=
  Run.allocate (.make (.array (.ofList elements)) prototype)

end Prototypal.Allocation
