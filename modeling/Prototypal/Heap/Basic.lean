import Prototypal.Object.Basic

/-!
# The heap

Objects by reference.  `get` is the view of a heap: storing an object changes the view at its
reference only, and allocation adds one reference.
-/

namespace Prototypal

/-- The objects made so far, in the order of their references. -/
structure Heap (κ : Type) where
  objects : Array (Object κ)

namespace Heap

variable {κ : Type}

/-- No objects. -/
def empty : Heap κ := ⟨#[]⟩

/-- How many objects were made. -/
def size (h : Heap κ) : Nat := h.objects.size

/-- Whether a reference is to an object that was made. -/
def contains (h : Heap κ) (o : ObjectId) : Bool := o.index < h.size

/-- The object of a reference; a reference to no object stands for an inert one. -/
def get (h : Heap κ) (o : ObjectId) : Object κ := h.objects[o.index]?.getD .inert

/-- Stores an object under an existing reference. -/
def set (h : Heap κ) (o : ObjectId) (object : Object κ) : Heap κ :=
  ⟨h.objects.setIfInBounds o.index object⟩

/-- The reference that the next object gets. -/
def next (h : Heap κ) : ObjectId := ⟨h.size⟩

/-- Adds an object.  Its prototype is an object that was made before it, or none. -/
def allocate (h : Heap κ) (object : Object κ) : ObjectId × Heap κ :=
  (h.next, ⟨h.objects.push { object with prototype := object.prototype.filter h.contains }⟩)

/-! ## The view of each operation -/

theorem contains_iff {h : Heap κ} {o : ObjectId} : h.contains o = true ↔ o.index < h.size :=
  decide_eq_true_iff

theorem get_set_self {h : Heap κ} {o : ObjectId} (object : Object κ) (ho : h.contains o = true) :
    (h.set o object).get o = object := by
  have : o.index < h.objects.size := contains_iff.1 ho
  simp [get, set, this]

theorem get_set_of_ne (h : Heap κ) {o p : ObjectId} (object : Object κ) (hp : p ≠ o) :
    (h.set o object).get p = h.get p := by
  have : o.index ≠ p.index := fun e => hp (by cases o; cases p; simp_all)
  simp [get, set, Array.getElem?_setIfInBounds_ne this]

/-- Storing an object where it is already changes nothing. -/
theorem set_get (h : Heap κ) (o : ObjectId) : h.set o (h.get o) = h := by
  obtain ⟨objects⟩ := h
  simp only [set, get, mk.injEq]
  refine Array.ext_getElem? fun i => ?_
  rw [Array.getElem?_setIfInBounds]
  split
  · next hi =>
    subst hi
    split
    · next hlt => simp [hlt]
    · next hlt => simp [hlt]
  · rfl

theorem set_set (h : Heap κ) (o : ObjectId) (a b : Object κ) : (h.set o a).set o b = h.set o b := by
  simp [set, Array.setIfInBounds_setIfInBounds]

@[simp]
theorem size_set (h : Heap κ) (o : ObjectId) (object : Object κ) :
    (h.set o object).size = h.size := by simp [size, set]

theorem contains_set (h : Heap κ) (o p : ObjectId) (object : Object κ) :
    (h.set o object).contains p = h.contains p := by simp [contains]

/-- Nothing is stored under a reference to no object. -/
theorem set_of_not_contains {h : Heap κ} {o : ObjectId} (object : Object κ)
    (ho : h.contains o = false) : h.set o object = h := by
  have : h.objects.size ≤ o.index := Nat.le_of_not_lt (of_decide_eq_false ho)
  cases h
  simp only [set, Heap.mk.injEq]
  exact Array.setIfInBounds_eq_of_size_le this

theorem get_of_not_contains {h : Heap κ} {o : ObjectId} (ho : h.contains o = false) :
    h.get o = .inert := by
  have : h.objects.size ≤ o.index := Nat.le_of_not_lt (of_decide_eq_false ho)
  simp [get, Array.getElem?_eq_none this]

theorem contains_of_ne_inert {h : Heap κ} {o : ObjectId} (ho : h.get o ≠ .inert) :
    h.contains o = true := by
  cases hc : h.contains o with
  | true => rfl
  | false => exact absurd (get_of_not_contains hc) ho

@[simp]
theorem size_allocate (h : Heap κ) (object : Object κ) :
    (h.allocate object).2.size = h.size + 1 := by simp [size, allocate]

theorem contains_next (h : Heap κ) : h.contains h.next = false := by simp [contains, next]

theorem contains_allocate_next (h : Heap κ) (object : Object κ) :
    (h.allocate object).2.contains h.next = true := by
  simp [contains_iff, allocate, size, next]

theorem contains_allocate {h : Heap κ} (object : Object κ) {o : ObjectId}
    (ho : h.contains o = true) : (h.allocate object).2.contains o = true := by
  have : o.index < h.objects.size := contains_iff.1 ho
  simp [contains_iff, allocate, size]
  omega

theorem get_allocate_of_contains {h : Heap κ} (object : Object κ) {o : ObjectId}
    (ho : h.contains o = true) : (h.allocate object).2.get o = h.get o := by
  have : o.index < h.objects.size := contains_iff.1 ho
  simp [get, allocate, Array.getElem?_push, Nat.ne_of_lt this]

theorem get_allocate_of_ne (h : Heap κ) (object : Object κ) {o : ObjectId} (ho : o ≠ h.next) :
    (h.allocate object).2.get o = h.get o := by
  have : o.index ≠ h.objects.size := fun e => ho (by cases o; simp_all [next, size])
  simp [get, allocate, Array.getElem?_push, this]

theorem get_allocate_next (h : Heap κ) (object : Object κ) :
    (h.allocate object).2.get h.next =
      { object with prototype := object.prototype.filter h.contains } := by
  simp [get, allocate, next, size]

/-- To allocate an object and store another in its place is to allocate the other. -/
theorem set_allocate_next (h : Heap κ) (a b : Object κ) :
    (h.allocate a).2.set h.next { b with prototype := b.prototype.filter h.contains } =
      (h.allocate b).2 := by
  simp [set, allocate, next, size, Array.setIfInBounds, Array.set_push]

end Heap

end Prototypal
