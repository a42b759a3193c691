import Prototypal.Fault
import Prototypal.Object.Elements
import Prototypal.Object.Table

/-!
# Objects

An object has a kind, named properties, a prototype, and a mark that forbids new properties.  The
operations here concern one object; they run no code and keep the object as it was when they fail.
-/

namespace Prototypal

/-- A position of an array iterator, one of those that the world keeps. -/
structure CursorId where
  index : Nat
deriving DecidableEq, Repr

/-- What a function does when it is called: client code, or one of the functions of iteration. -/
inductive Body (κ : Type) where
  /-- Runs client code. -/
  | client (code : κ)
  /-- Makes an iterator over `this`. -/
  | iterate
  /-- Reads the element of `source` at the cursor. -/
  | current (cursor : CursorId) (source : Value)
  /-- Moves the cursor to the next element of `source`. -/
  | moveNext (cursor : CursorId) (source : Value)
deriving DecidableEq, Repr

/-- What kind of object an object is. -/
inductive ObjectKind (κ : Type) where
  | ordinary
  | function (name : String) (body : Body κ)
  | array (elements : Elements)

/-- An object.  The elements and the length of an array are not in its table. -/
structure Object (κ : Type) where
  kind : ObjectKind κ
  table : Table
  prototype : Option ObjectId
  extensible : Bool

namespace Object

variable {κ : Type}

/-- A new object of some kind, without properties. -/
def make (kind : ObjectKind κ) (prototype : Option ObjectId) : Object κ :=
  ⟨kind, .empty, prototype, true⟩

/-- What a reference to no object stands for: nothing that can grow or be called. -/
def inert : Object κ := ⟨.ordinary, .empty, none, false⟩

instance : Inhabited (Object κ) := ⟨inert⟩

/-- The body of a function. -/
def body? (o : Object κ) : Option (Body κ) :=
  match o.kind with
  | .function _ body => some body
  | _ => none

/-- The name of a function. -/
def functionName? (o : Object κ) : Option String :=
  match o.kind with
  | .function name _ => some name
  | _ => none

/-- The elements of an array. -/
def elements? (o : Object κ) : Option Elements :=
  match o.kind with
  | .array elements => some elements
  | _ => none

/-- Whether the object can be called. -/
def isCallable (o : Object κ) : Bool := o.body?.isSome

/-! ## Which part of an object a key belongs to -/

/-- The part of an object that holds the property of a key. -/
inductive Place where
  /-- An element of an array. -/
  | element (elements : Elements) (index : Nat)
  /-- The length of an array. -/
  | length (elements : Elements)
  /-- An entry of the table. -/
  | entry

/-- Where the property of a key is held. -/
def place (o : Object κ) (k : Key) : Place :=
  match o.kind with
  | .array elements =>
    match k.index? with
    | some i => .element elements i
    | none => if k = Key.length then .length elements else .entry
  | _ => .entry

/-! ## Reading -/

/-- The own property under a key. -/
def getOwn (o : Object κ) (k : Key) : Option Property :=
  match o.place k with
  | .element elements i => (elements.get? i).map .data
  | .length elements => some elements.lengthProperty
  | .entry => o.table.find? k

/-- The own keys: element indices in ascending order, the length of an array, then the keys of the
table in the order of their definition. -/
def ownKeys (o : Object κ) : List Key :=
  match o.kind with
  | .array elements => elements.indices.map .ofIndex ++ Key.length :: o.table.keys
  | _ => o.table.keys

/-- The own text keys. -/
def ownNames (o : Object κ) : List String := o.ownKeys.filterMap Key.text?

/-- The own text keys whose property is enumerable. -/
def enumerableNames (o : Object κ) : List String :=
  (o.ownKeys.filter fun k => (o.getOwn k).any (·.enumerable)).filterMap Key.text?

/-! ## Changing -/

/-- The elements after a definition at an index.  An element has no attributes of its own; it takes
the value of the descriptor, if there is one. -/
def defineElement (elements : Elements) (extensible : Bool) (i : Nat) (d : Descriptor) :
    Except Fault Elements :=
  let present := elements.get? i
  if d.isAccessor then .error (.accessorElement i)
  else if present.isNone && !extensible then .error (.notExtensible (.ofIndex i))
  else .ok (elements.put i ((d.value <|> present).getD .undefined))

/-- The elements after a definition of the length. -/
def defineLength (elements : Elements) (d : Descriptor) : Except Fault Elements :=
  match d.value with
  | none => .ok elements
  | some v =>
    match v.number?.bind Number.length? with
    | some n => .ok (elements.resize n)
    | none => .error .invalidLength

/-- The table after a definition under a key. -/
def defineEntry (table : Table) (extensible : Bool) (k : Key) (d : Descriptor) :
    Except Fault Table :=
  match table.find? k with
  | none =>
    if extensible then .ok (table.put k (.ofDescriptor d)) else .error (.notExtensible k)
  | some current =>
    if current.admits d then .ok (table.put k (current.merged d)) else .error (.notRedefinable k)

/-- Defines or redefines an own property. -/
def define (o : Object κ) (k : Key) (d : Descriptor) : Except Fault (Object κ) :=
  match o.place k with
  | .element elements i =>
    (defineElement elements o.extensible i d).map fun e => { o with kind := .array e }
  | .length elements => (defineLength elements d).map fun e => { o with kind := .array e }
  | .entry => (defineEntry o.table o.extensible k d).map fun t => { o with table := t }

/-- Deletes an own property; an absent one counts as deleted. -/
def delete (o : Object κ) (k : Key) : Except Fault (Object κ) :=
  match o.place k with
  | .element elements i => .ok { o with kind := .array (elements.erase i) }
  | .length _ => .error (.notDeletable Key.length)
  | .entry =>
    match o.table.find? k with
    | some p =>
      if p.configurable then .ok { o with table := o.table.erase k } else .error (.notDeletable k)
    | none => .ok o

/-- Appends an element to an array, extensible or not, and gives its new length. -/
def push (o : Object κ) (v : Value) : Except Fault (Nat × Object κ) :=
  match o.kind with
  | .array elements =>
    if elements.length = Number.maxLength then .error .invalidLength
    else
      let elements := elements.put elements.length v
      .ok (elements.length, { o with kind := .array elements })
  | _ => .error .pushOnNonArray

end Object

end Prototypal
