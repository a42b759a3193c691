import Prototypal.Access

/-!
# Iteration

An iterator has a `moveNext` method, which moves it and says whether it stands at an element, and a
`current` member.  A collection makes one by its method under the well-known iterator name; an
object under the generator name is its own iterator.  Arrays get an iterator that reads the array as
it is at each step.
-/

namespace Prototypal.Iteration

variable {κ σ : Type}

/-- Marks an object as its own iterator. -/
def markGenerator (o : ObjectId) : Run κ σ Unit := do
  let names ← Run.view (·.wellKnown)
  Run.change o (·.define (.name names.generator) (.hidden (.boolean true)))

/-- A new iterator over an array-like value, before its first element. -/
def makeIterator (source : Value) : Run κ σ Value := do
  let names ← Run.view (·.wellKnown)
  let cursor ← Run.modifyGet (·.addCursor)
  let current ← Run.allocate (.make (.function "current" (.current cursor source)) none)
  let moveNext ← Run.allocate (.make (.function "moveNext" (.moveNext cursor source)) none)
  .object <$> Run.allocate
    { Object.make .ordinary none with
      table := .ofList [(.current, ⟨.accessor (some current) none, false, true⟩),
        (.moveNext, .hidden (.object moveNext)),
        (.name names.generator, .hidden (.boolean true))] }

/-- Gives an object, the prototype of arrays, the method that makes array iterators. -/
def install (o : ObjectId) : Run κ σ Unit := do
  let names ← Run.view (·.wellKnown)
  let method ← Run.allocate (.make (.function "iterator" .iterate) none)
  Run.change o (·.define (.name names.iterator) (.hidden (.object method)))

variable (exec : Exec κ σ)

/-- The element of `source` at a cursor, as `source` is now. -/
def current (cursor : CursorId) (source : Value) : Run κ σ Value := do
  match (← Run.view (·.cursor cursor)).index? with
  | none => pure .undefined
  | some i => Access.get exec source (.ofIndex i)

/-- Moves a cursor to the next element of `source`, or to its end. -/
def moveNext (cursor : CursorId) (source : Value) : Run κ σ Value := do
  let length := (← Access.get exec source .length).count
  let next := (← Run.view (·.cursor cursor)).next
  if next.toNat < length then
    Run.modify (·.setCursor cursor ⟨next⟩)
    pure (.boolean true)
  else
    Run.modify (·.setCursor cursor ⟨.ofNat length⟩)
    pure (.boolean false)

/-- The iterator of a collection. -/
def iterator (collection : Value) : Run κ σ Value := do
  let names ← Run.view (·.wellKnown)
  if ← Run.viewHeap fun h => collection.object?.any fun o => h.has o (.name names.generator) then
    pure collection
  else
    let method ← Access.get exec collection (.name names.iterator)
    match ← Run.viewHeap (·.callable? method) with
    | some f => call exec f collection []
    | none => Run.fail (.notIterable (← Run.viewHeap (·.text collection)))

/-- Visits elements while the iterator finds one, with fuel for `n` of them. -/
def visitAll (moveNext : ObjectId) (iterator : Value) (visit : Value → Run κ σ Unit) :
    Nat → Run κ σ Unit
  | 0 => Run.exhausted
  | n + 1 => do
    if (← call exec moveNext iterator []).isTruthy then
      visit (← Access.get exec iterator .current)
      visitAll moveNext iterator visit n
    else pure ()

/-- Visits the elements of a collection in order; a fault of the visitor ends the iteration. -/
def forEach (n : Nat) (collection : Value) (visit : Value → Run κ σ Unit) : Run κ σ Unit := do
  let iterator ← iterator exec collection
  let method ← Access.get exec iterator .moveNext
  match ← Run.viewHeap (·.callable? method) with
  | some moveNext => visitAll exec moveNext iterator visit n
  | none => Run.fail .noMoveNext

end Prototypal.Iteration
