import Prototypal.Query
import Prototypal.Realm

/-!
# Client programs

Client code is a tree: it asks a question and goes on with the answer, asks for an operation and
goes on with the result or the fault, acts on its own state, or is done.  The codes of its
functions, handlers and visitors are of a type `κ` of its own, and its state of a type `σ`; a
`Client` says which program a code runs.
-/

namespace Prototypal

/-- An operation that client code can ask for, with a result of the given type. -/
inductive Request (κ : Type) : Type → Type where
  | newObject (prototype : Option ObjectId) : Request κ ObjectId
  | newFunction (name : String) (code : κ) : Request κ ObjectId
  | newConstructor (name : String) (code : κ) : Request κ ObjectId
  | newArray (elements : List Value) (prototype : Option ObjectId) : Request κ ObjectId
  /-- Makes an error object. -/
  | reify (f : Fault) : Request κ Value
  /-- Appends to an array and gives its new length. -/
  | push (o : ObjectId) (v : Value) : Request κ Nat
  | setPrototype (o : ObjectId) (prototype : Option ObjectId) : Request κ Unit
  | preventExtensions (o : ObjectId) : Request κ Unit
  /-- Reads a property, with a receiver for its getter. -/
  | get (o : ObjectId) (k : Key) (receiver : Value) : Request κ Value
  /-- Assigns a property of a receiver. -/
  | set (o : ObjectId) (k : Key) (v receiver : Value) : Request κ Unit
  | define (o : ObjectId) (k : Key) (d : Descriptor) : Request κ Unit
  | delete (o : ObjectId) (k : Key) : Request κ Unit
  | call (f : ObjectId) (this : Value) (arguments : List Value) : Request κ Value
  | construct (f : ObjectId) (arguments : List Value) : Request κ Value
  | accessGet (owner : Value) (k : Key) : Request κ Value
  | accessSet (owner : Value) (k : Key) (v : Value) : Request κ Unit
  | accessDelete (owner : Value) (k : Key) : Request κ Bool
  | accessDefine (owner : Value) (k : Key) (d : Descriptor) : Request κ Unit
  | computedGet (owner key : Value) : Request κ Value
  | computedSet (owner key v : Value) : Request κ Value
  | computedDelete (owner key : Value) : Request κ Bool
  | createClass (constructor members : ObjectId) (parent : Value) : Request κ ObjectId
  /-- Calls an inherited method. -/
  | superCall (self : Value) (constructor : ObjectId) (k : Key) (arguments : List Value) :
      Request κ Value
  /-- Reads an inherited member. -/
  | superGet (self : Value) (constructor : ObjectId) (k : Key) : Request κ Value
  /-- Runs an inherited setter. -/
  | superSet (self : Value) (constructor : ObjectId) (k : Key) (v : Value) : Request κ Unit
  /-- Takes methods out of enumeration and gives the object. -/
  | markMethods (o : ObjectId) (names : List String) : Request κ ObjectId
  | iterator (collection : Value) : Request κ Value
  /-- Marks an object as its own iterator. -/
  | markGenerator (o : ObjectId) : Request κ Unit
  /-- Gives an object the method that makes array iterators. -/
  | installIterator (o : ObjectId) : Request κ Unit
  /-- Visits the elements of a collection. -/
  | forEach (collection : Value) (visitor : κ) : Request κ Unit
  | spread (items : List SpreadItem) : Request κ (List Value)
  /-- Calls a function as a constructor with spread arguments. -/
  | spreadConstruct (f : ObjectId) (items : List SpreadItem) : Request κ Value
  | newKey : Request κ String
  | newName (display : Option String) : Request κ PrivateName
  /-- Switches the random part of storage keys on or off. -/
  | setRandomized (on : Bool) : Request κ Unit
  | newRealm (configuration : Configuration) : Request κ Realm
  | realmArray (realm : Realm) (elements : List Value) : Request κ ObjectId
  /-- Makes an array of a realm of spread items. -/
  | realmSpreadArray (realm : Realm) (items : List SpreadItem) : Request κ ObjectId
  | newDeferred (canceller : Option κ) : Request κ DeferredId
  | fire (d : DeferredId) (s : Settlement) : Request κ Unit
  | listen (d : DeferredId) (callback errback : Option κ) : Request κ Promise
  | cancel (d : DeferredId) : Request κ Unit
  /-- Lets go of the last reference to a deferred. -/
  | release (d : DeferredId) : Request κ Unit

/-- Client code with operations still to come. -/
inductive Program (κ σ : Type) : Type 1 where
  /-- Ends with a value or a fault. -/
  | done (result : Except Fault Value)
  /-- Acts on the state of the client. -/
  | act {α : Type} (action : σ → α × σ) (next : α → Program κ σ)
  /-- Asks a question. -/
  | look {α : Type} (question : Query α) (next : α → Program κ σ)
  /-- Asks for an operation; its fault does not end the program by itself. -/
  | ask {α : Type} (request : Request κ α) (next : Except Fault α → Program κ σ)

/-- The program that a code runs when it is invoked. -/
abbrev Client (κ σ : Type) := κ → Invocation → Program κ σ

end Prototypal
