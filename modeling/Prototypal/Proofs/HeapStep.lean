import Prototypal.Heap.Chain
import Prototypal.Proofs.Elements

/-!
# Steps of the heap

Everything that the library does to the heap is a sequence of these steps.  What every step keeps is
therefore kept by whatever runs.
-/

namespace Prototypal

variable {κ : Type}

/-- Whether fields of a data property and fields of an accessor property are named together. -/
def Descriptor.Mixes (d : Descriptor) : Prop := d.isData = true ∧ d.isAccessor = true

instance (d : Descriptor) : Decidable d.Mixes := inferInstanceAs (Decidable (_ ∧ _))

theorem Descriptor.not_mixes {d : Descriptor} (hg : d.getter = none) (hs : d.setter = none) :
    ¬ d.Mixes := by
  simp [Mixes, isAccessor, hg, hs]

theorem Property.not_mixes_toDescriptor (p : Property) : ¬ p.toDescriptor.Mixes := by
  obtain ⟨slot, enumerable, configurable⟩ := p
  cases slot <;> simp [toDescriptor, Descriptor.Mixes, Descriptor.isData, Descriptor.isAccessor]

/-- A descriptor that names no functions, and asks for nothing that enumeration shows. -/
structure Descriptor.Discreet (d : Descriptor) : Prop where
  noGetter : d.getter = none
  noSetter : d.setter = none
  notShown : d.enumerable ≠ some true

namespace Descriptor.Discreet

theorem unmixed {d : Descriptor} (h : d.Discreet) : ¬ d.Mixes := not_mixes h.noGetter h.noSetter

theorem hidden (v : Value) : (Descriptor.hidden v).Discreet :=
  ⟨rfl, rfl, by simp [Descriptor.hidden]⟩

theorem onlyValue (v : Value) : (Descriptor.onlyValue v).Discreet :=
  ⟨rfl, rfl, by simp [Descriptor.onlyValue]⟩

end Descriptor.Discreet

/-- What holds of an object when it is made: it takes properties, an array has none in its table and
elements that fit, and none under a private name is enumerable. -/
structure Object.Made (o : Object κ) : Prop where
  extensible : o.extensible = true
  bare {elements : Elements} : o.kind = .array elements → o.table = .empty
  fits {elements : Elements} : o.kind = .array elements → elements.Fits
  hidden {n : PrivateName} {p : Property} : o.table.find? (.name n) = some p → p.enumerable = false

theorem Object.Made.make {kind : ObjectKind κ}
    (hk : ∀ elements, kind = .array elements → elements.Fits) (prototype : Option ObjectId) :
    (Object.make kind prototype).Made where
  extensible := rfl
  bare _ := rfl
  fits := hk _
  hidden h := by cases (Table.find?_empty _).symm.trans h

theorem Object.Made.withTable {kind : ObjectKind κ} (hk : ∀ elements, kind ≠ .array elements)
    (prototype : Option ObjectId) {properties : List (Key × Property)}
    (hp : ∀ n p, (.name n, p) ∈ properties → p.enumerable = false) :
    { Object.make kind prototype with table := .ofList properties }.Made where
  extensible := rfl
  bare h := absurd h (hk _)
  fits h := absurd h (hk _)
  hidden h := hp _ _ (Table.mem_of_find?_ofList h)

/-- The functions that stand in for a value. -/
def Slot.functions : Slot → List ObjectId
  | .data _ _ => []
  | .accessor getter setter => getter.toList ++ setter.toList

/-- The object has an accessor with the function in its table. -/
def Object.Holds (o : Object κ) (f : ObjectId) : Prop :=
  ∃ k p, o.table.find? k = some p ∧ f ∈ p.slot.functions

theorem Object.not_holds_make (kind : ObjectKind κ) (prototype : Option ObjectId) (f : ObjectId) :
    ¬ (Object.make kind prototype).Holds f := by
  rintro ⟨k, p, hp, -⟩
  cases (Table.find?_empty _).symm.trans hp

/-- The position that a function of an iterator reads or moves. -/
def Body.cursor? : Body κ → Option CursorId
  | .current cursor _ | .moveNext cursor _ => some cursor
  | .client _ | .iterate => none

/-- The position that an object reads or moves when it is called. -/
def Object.cursor? (o : Object κ) : Option CursorId := o.body?.bind Body.cursor?

/-- What objects are when they are made, unless they are functions of an iterator. -/
inductive ObjectKind.Plain : ObjectKind κ → Prop
  | ordinary : Plain .ordinary
  | client {name : String} {code : κ} : Plain (.function name (.client code))
  | iterate {name : String} : Plain (.function name .iterate)
  | array {elements : Elements} (fits : elements.Fits) : Plain (.array elements)

/-- What holds of an object when it is made, unless it is a part of an iterator: it has no
accessors, and moves no position. -/
structure Object.PlainlyMade (o : Object κ) : Prop extends o.Made where
  plain {f : ObjectId} : ¬ o.Holds f
  still : o.cursor? = none

theorem ObjectKind.Plain.cursor?_eq_none {o : Object κ} (hk : o.kind.Plain) : o.cursor? = none := by
  unfold Object.cursor? Object.body?
  cases hk' : o.kind with
  | function =>
      rw [hk'] at hk
      cases hk <;> rfl
  | _ => rfl

theorem Object.PlainlyMade.make {kind : ObjectKind κ} (hk : kind.Plain)
    (prototype : Option ObjectId) : (Object.make kind prototype).PlainlyMade where
  toMade := .make (by rintro elements rfl; cases hk; assumption) prototype
  plain := not_holds_make _ _ _
  still := ObjectKind.Plain.cursor?_eq_none (o := .make kind prototype) hk

theorem Object.PlainlyMade.withTable {kind : ObjectKind κ} (hk : kind.Plain)
    (ha : ∀ elements, kind ≠ .array elements)
    (prototype : Option ObjectId) {properties : List (Key × Property)}
    (hp : ∀ n p, (.name n, p) ∈ properties → p.enumerable = false)
    (hf : ∀ entry ∈ properties, entry.2.slot.functions = []) :
    { Object.make kind prototype with table := .ofList properties }.PlainlyMade where
  toMade := .withTable ha prototype hp
  plain := by
    rintro f ⟨k, p, hp, held⟩
    cases hf _ (Table.mem_of_find?_ofList hp) ▸ held
  still := ObjectKind.Plain.cursor?_eq_none (o := .make kind prototype) hk

/-- A single change of the heap, of one object or by one object more.  `Defines` says which
definitions are among the changes. -/
inductive Heap.Step (Defines : ObjectId → Key → Descriptor → Prop) : Heap κ → Heap κ → Prop
  | define {h : Heap κ} {o : ObjectId} {k : Key} {d : Descriptor} {object : Object κ}
      (hd : Defines o k d) (he : (h.get o).define k d = .ok object) :
      Step Defines h (h.set o object)
  | delete {h : Heap κ} {o : ObjectId} {k : Key} {object : Object κ}
      (he : (h.get o).delete k = .ok object) : Step Defines h (h.set o object)
  | push {h : Heap κ} {o : ObjectId} {v : Value} {n : Nat} {object : Object κ}
      (he : (h.get o).push v = .ok (n, object)) : Step Defines h (h.set o object)
  | preventExtensions {h : Heap κ} {o : ObjectId} :
      Step Defines h (h.set o { h.get o with extensible := false })
  | setPrototype {h : Heap κ} {o : ObjectId} {prototype : Option ObjectId}
      (hc : h.closesCircle o prototype = false) : Step Defines h (h.setPrototype o prototype)
  | allocate {h : Heap κ} {object : Object κ} (ho : object.Made) :
      Step Defines h (h.allocate object).2

/-- Steps of the heap among which are all that the library takes by itself while it makes no
iterator: whatever else it does, it defines discreetly, and objects are made in few ways. -/
structure Heap.Includes (S : Heap κ → Heap κ → Prop) : Prop where
  define {h : Heap κ} {o : ObjectId} {k : Key} {d : Descriptor} {object : Object κ}
    (hd : d.Discreet) (he : (h.get o).define k d = .ok object) : S h (h.set o object)
  delete {h : Heap κ} {o : ObjectId} {k : Key} {object : Object κ}
    (he : (h.get o).delete k = .ok object) : S h (h.set o object)
  preventExtensions {h : Heap κ} {o : ObjectId} : S h (h.set o { h.get o with extensible := false })
  setPrototype {h : Heap κ} {o : ObjectId} {prototype : Option ObjectId}
    (hc : h.closesCircle o prototype = false) : S h (h.setPrototype o prototype)
  make {h : Heap κ} {object : Object κ} (ho : object.PlainlyMade) : S h (h.allocate object).2

/-- Steps of the heap among which are all that the library takes by itself. -/
structure Heap.Covers (S : Heap κ → Heap κ → Prop) : Prop extends Heap.Includes S where
  /-- An iterator gets its functions when they are there. -/
  allocate {h : Heap κ} {object : Object κ} (ho : object.Made)
    (hf : ∀ {f}, object.Holds f → (h.get f).isCallable = true) : S h (h.allocate object).2
  make ho := allocate ho.toMade fun held => absurd held ho.plain

/-- The steps include the definition of a property by the descriptor of another one. -/
def Heap.Copies (S : Heap κ → Heap κ → Prop) : Prop :=
  ∀ {h : Heap κ} {source o : ObjectId} {k : Key} {p : Property} {object : Object κ},
    (h.get source).getOwn k = some p → (h.get o).define k p.toDescriptor = .ok object →
    S h (h.set o object)

theorem Heap.Step.covers {Defines : ObjectId → Key → Descriptor → Prop}
    (hu : ∀ {o k d}, ¬ d.Mixes → Defines o k d) : Covers (Step (κ := κ) Defines) where
  define hd he := .define (hu hd.unmixed) he
  delete := .delete
  preventExtensions := .preventExtensions
  setPrototype := .setPrototype
  allocate ho _ := .allocate ho

theorem Heap.Step.copies {Defines : ObjectId → Key → Descriptor → Prop}
    (hu : ∀ {o k d}, ¬ d.Mixes → Defines o k d) : Copies (Step (κ := κ) Defines) :=
  fun {_ _ _ _ p _} _ he => .define (hu p.not_mixes_toDescriptor) he

end Prototypal
