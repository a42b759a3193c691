import Prototypal.Access

/-!
# Spread

Argument lists in which some items stand for all elements of an array-like object.
-/

namespace Prototypal

/-- An item of an argument list. -/
inductive SpreadItem where
  | plain (v : Value)
  | spread (v : Value)
deriving DecidableEq, Repr

namespace Spread

variable {κ σ : Type} (exec : Exec κ σ)

/-- The next `n` elements of an array-like object from an index on, after those that were read, the
latest first.  None is read after one that fails. -/
def elementsFrom (source : Value) : Nat → Nat → List Value → Run κ σ (List Value)
  | 0, _, read => pure read.reverse
  | n + 1, i, read => do
    let v ← Access.get exec source (.ofIndex i)
    elementsFrom source n (i + 1) (v :: read)

/-- The elements of an array-like object, as many as its `length` says before the first is read. -/
def elements (source : Value) : Run κ σ (List Value) := do
  elementsFrom exec source (← Access.get exec source .length).count 0 []

/-- The arguments that an item stands for. -/
def expand : SpreadItem → Run κ σ (List Value)
  | .plain v => pure [v]
  | .spread .undefined | .spread .null => pure []
  | .spread (.object o) => elements exec (.object o)
  | .spread _ => Run.fail .notSpreadable

/-- The arguments that a list of items stands for. -/
def arguments (items : List SpreadItem) : Run κ σ (List Value) :=
  List.flatten <$> items.mapM (expand exec)

/-- Calls a function as a constructor with spread arguments. -/
def construct (f : ObjectId) (items : List SpreadItem) : Run κ σ Value := do
  Prototypal.construct exec f (← arguments exec items)

/-! ## Laws -/

theorem elementsFrom_eq_mapM (source : Value) (n i : Nat) (read : List Value) :
    elementsFrom exec source n i read = (read.reverse ++ ·) <$>
      (List.range' i n).mapM fun i => Access.get exec source (.ofIndex i) := by
  induction n generalizing i read with
  | zero => simp [elementsFrom]
  | succ n ih => simp [elementsFrom, List.range'_succ, ih]

theorem elements_eq_mapM (source : Value) :
    elements exec source = Access.get exec source .length >>= fun length =>
      (List.range length.count).mapM fun i => Access.get exec source (.ofIndex i) := by
  simp [elements, elementsFrom_eq_mapM, List.range_eq_range']

end Spread

end Prototypal
