import Prototypal.Access
import Prototypal.ComputedAccess
import Prototypal.Deferred.Diagnostic

/-!
# Queries

The questions that client code can ask about the world.  An answer runs no code and changes nothing.
-/

namespace Prototypal

/-- A question with an answer of the given type. -/
inductive Query : Type → Type where
  | text (v : Value) : Query String
  | key (v : Value) : Query Key
  | typeName (v : Value) : Query TypeName
  | isCallable (v : Value) : Query Bool
  | functionName (o : ObjectId) : Query (Option String)
  /-- The elements of an array, holes read as `undefined`. -/
  | elements (o : ObjectId) : Query (Option (List Value))
  | length (o : ObjectId) : Query (Option Nat)
  | isExtensible (o : ObjectId) : Query Bool
  | prototype (o : ObjectId) : Query (Option ObjectId)
  | getOwn (o : ObjectId) (k : Key) : Query (Option Property)
  /-- The nearest property on the chain of an object. -/
  | find (o : ObjectId) (k : Key) : Query (Option Property)
  | ownKeys (o : ObjectId) : Query (List Key)
  /-- The own text keys. -/
  | ownNames (o : ObjectId) : Query (List String)
  /-- The own text keys whose property is enumerable. -/
  | enumerableNames (o : ObjectId) : Query (List String)
  | diagnostic (o : ObjectId) : Query String
  /-- Whether a property is found on the chain, through access with private names. -/
  | has (owner : Value) (k : Key) : Query Bool
  /-- Whether there is an own property, through access with private names. -/
  | hasOwn (owner : Value) (k : Key) : Query Bool
  /-- The descriptor of the nearest property, through access with private names. -/
  | descriptor (owner : Value) (k : Key) : Query (Option Descriptor)
  /-- The own text keys, through access with private names. -/
  | names (owner : Value) : Query (List String)
  | hasComputed (owner key : Value) : Query Bool
  | isFired (d : DeferredId) : Query Bool
  | deferredDiagnostic (d : DeferredId) : Query String
  | promiseDiagnostic (p : Promise) : Query String
  | wellKnown : Query WellKnownNames
  /-- Whether new storage keys carry a random part. -/
  | isRandomized : Query Bool

/-- The answer to a question in a world. -/
def Query.answer {κ σ : Type} (w : World κ σ) {α : Type} : Query α → α
  | .text v => w.heap.text v
  | .key v => w.heap.key v
  | .typeName v => w.heap.typeName v
  | .isCallable v => (w.heap.callable? v).isSome
  | .functionName o => (w.heap.get o).functionName?
  | .elements o => (w.heap.get o).elements?.map Elements.toList
  | .length o => (w.heap.get o).elements?.map Elements.length
  | .isExtensible o => (w.heap.get o).extensible
  | .prototype o => (w.heap.get o).prototype
  | .getOwn o k => (w.heap.get o).getOwn k
  | .find o k => w.heap.find o k
  | .ownKeys o => (w.heap.get o).ownKeys
  | .ownNames o => (w.heap.get o).ownNames
  | .enumerableNames o => (w.heap.get o).enumerableNames
  | .diagnostic o => (w.heap.get o).diagnostic
  | .has owner k => Access.has w.heap owner k
  | .hasOwn owner k => Access.hasOwn w.heap owner k
  | .descriptor owner k => Access.descriptor? w.heap owner k
  | .names owner => Access.names w.heap owner
  | .hasComputed owner v => ComputedAccess.has w.heap owner v
  | .isFired d => (w.deferred d).isFired
  | .deferredDiagnostic d => w.deferredDiagnostic d
  | .promiseDiagnostic p => w.promiseDiagnostic p
  | .wellKnown => w.wellKnown
  | .isRandomized => w.names.randomized

end Prototypal
