import Prototypal.Proofs.DataProperty

/-!
# Error objects

What a fault is turned into when client code is to see it.
-/

namespace Prototypal

variable {κ σ : Type}

/-- The object shows an error: a name and a message, which enumeration leaves out. -/
structure Heap.ShowsError (h : Heap κ) (o : ObjectId) (name message : String) : Prop where
  name : (h.get o).getOwn (.text "name") = some (.hidden (.string name))
  message : (h.get o).getOwn (.text "message") = some (.hidden (.string message))

/-- The object of an error with the given name and message. -/
def Object.error (name message : String) : Object κ :=
  { Object.make .ordinary none with
    table := .ofList [(.text "name", .hidden (.string name)),
      (.text "message", .hidden (.string message))] }

/-- The object that a fault is turned into. -/
def Object.ofFault (f : Fault) : Object κ := .error f.surfaceName f.message

theorem Run.reify_eq (f : Fault) (w : World κ σ) :
    Run.reify f w = .value (.object w.heap.next)
      { w with heap := (w.heap.allocate (.ofFault f)).2 } := rfl

theorem Heap.ShowsError.ofFault (h : Heap κ) (f : Fault) :
    (h.allocate (.ofFault f)).2.ShowsError h.next f.surfaceName f.message := by
  constructor <;> rw [get_allocate_next] <;> rfl

end Prototypal
