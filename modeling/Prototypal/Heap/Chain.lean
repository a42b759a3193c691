import Prototypal.Heap.Basic

/-!
# Prototype chains

The chain of an object is the object, its prototype, the prototype of that, and so on.  Lookup takes
the first property on the chain, and a new prototype is refused if it would close a circle.
-/

namespace Prototypal.Heap

variable {κ : Type}

/-- The first `n` objects of a chain. -/
def chainUpTo (h : Heap κ) : Nat → ObjectId → List ObjectId
  | 0, _ => []
  | n + 1, o =>
    o :: match (h.get o).prototype with
      | none => []
      | some p => h.chainUpTo n p

/-- The chain of an object.  Without circles it is no longer than there are objects. -/
def chain (h : Heap κ) (o : ObjectId) : List ObjectId := h.chainUpTo (h.size + 1) o

/-- The nearest property under a key on the first `n` objects of a chain. -/
def findUpTo (h : Heap κ) : Nat → ObjectId → Key → Option Property
  | 0, _, _ => none
  | n + 1, o, k =>
    match (h.get o).getOwn k with
    | some property => some property
    | none =>
      match (h.get o).prototype with
      | none => none
      | some p => h.findUpTo n p k

/-- The nearest property under a key on the chain of an object. -/
def find (h : Heap κ) (o : ObjectId) (k : Key) : Option Property := h.findUpTo (h.size + 1) o k

/-- The slot of the nearest property under a key on the chain of an object. -/
def findSlot (h : Heap κ) (o : ObjectId) (k : Key) : Option Slot := (h.find o k).map Property.slot

/-- Whether the chain of an object has a property under a key. -/
def has (h : Heap κ) (o : ObjectId) (k : Key) : Bool := (h.find o k).isSome

/-- Whether a prototype of an object would close a circle: the object is on its chain. -/
def closesCircle (h : Heap κ) (o : ObjectId) (prototype : Option ObjectId) : Bool :=
  prototype.any fun p => o ∈ h.chain p

/-- Gives an object another prototype, or none. -/
def setPrototype (h : Heap κ) (o : ObjectId) (prototype : Option ObjectId) : Heap κ :=
  h.set o { h.get o with prototype := prototype.filter h.contains }

/-- `below` inherits from `above` directly. -/
def Inherits (h : Heap κ) (above below : ObjectId) : Prop := (h.get below).prototype = some above

/-- No chain comes back to an object: every chain ends. -/
def Acyclic (h : Heap κ) : Prop := WellFounded h.Inherits

/-! ## Lookup as a view of the chain -/

theorem findUpTo_eq_findSome? (h : Heap κ) (n : Nat) (o : ObjectId) (k : Key) :
    h.findUpTo n o k = (h.chainUpTo n o).findSome? fun p => (h.get p).getOwn k := by
  induction n generalizing o with
  | zero => rfl
  | succ n ih =>
    rw [findUpTo, chainUpTo, List.findSome?_cons]
    split
    · simp_all
    · cases (h.get o).prototype <;> simp_all

theorem find_eq_findSome? (h : Heap κ) (o : ObjectId) (k : Key) :
    h.find o k = (h.chain o).findSome? fun p => (h.get p).getOwn k :=
  h.findUpTo_eq_findSome? _ o k

/-- Another prototype is all that an object gets with it. -/
theorem kind_setPrototype (h : Heap κ) (o p : ObjectId) (prototype : Option ObjectId) :
    ((h.setPrototype o prototype).get p).kind = (h.get p).kind := by
  unfold setPrototype
  by_cases hp : p = o
  · subst hp
    cases hc : h.contains p with
    | true => rw [get_set_self _ hc]
    | false => rw [set_of_not_contains _ hc]
  · rw [get_set_of_ne _ _ hp]

theorem find_of_own {h : Heap κ} {o : ObjectId} {k : Key} {p : Property}
    (hp : (h.get o).getOwn k = some p) : h.find o k = some p := by
  simp [find, findUpTo, hp]

end Prototypal.Heap
