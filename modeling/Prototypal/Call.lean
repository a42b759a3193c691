import Prototypal.Run

/-!
# Calls

Calling a function and reading or assigning a property through it.  Reading may run a getter and
assignment a setter; everything they run is passed in as `exec`.
-/

namespace Prototypal

/-- What a body is run for. -/
inductive Invocation where
  /-- A call of a function. -/
  | call (this : Value) (arguments : List Value)
  /-- The settlement of a deferred that the code listens to, for the listener with a given promise.
  -/
  | settle (promise : Promise) (value : Value)
  /-- The cancelling of a deferred. -/
  | cancel (deferred : DeferredId)
  /-- A visit of an element in an iteration. -/
  | visit (element : Value)
deriving Repr

/-- What running a body means. -/
abbrev Exec (κ σ : Type) := Body κ → Invocation → Run κ σ Value

variable {κ σ : Type} (exec : Exec κ σ)

/-- Calls a function. -/
def call (f : ObjectId) (this : Value) (arguments : List Value) : Run κ σ Value := do
  match (← Run.viewHeap (·.get f)).body? with
  | some body => exec body (.call this arguments)
  | none => Run.fail .notCallable

namespace Member

/-- Reads a property found on the chain of `o`; a getter runs with `receiver` as `this`. -/
def get (o : ObjectId) (k : Key) (receiver : Value) : Run κ σ Value := do
  match ← Run.viewHeap (·.findSlot o k) with
  | some (.data v _) => pure v
  | some (.accessor (some getter) _) => call exec getter receiver []
  | some (.accessor none _) | none => pure .undefined

/-- Puts a value into an own property of the receiver of an assignment: an existing writable value
is replaced, an absent one created. -/
def store (receiver : Value) (k : Key) (v : Value) : Run κ σ Unit := do
  match receiver with
  | .object target =>
    match ((← Run.viewHeap (·.get target)).getOwn k).map Property.slot with
    | some (.data _ true) => Run.change target (·.define k (.onlyValue v))
    | some _ => Run.fail (.readOnly k)
    | none => Run.change target (·.define k (.data v))
  | _ => Run.fail (.receiverNotObject k receiver.typeName)

/-- Assigns a property.  A setter found on the chain of `o` runs with `receiver` as `this`; a
read-only value there forbids the assignment; otherwise the receiver stores the value. -/
def set (o : ObjectId) (k : Key) (v receiver : Value) : Run κ σ Unit := do
  match ← Run.viewHeap (·.findSlot o k) with
  | some (.accessor _ (some setter)) => discard <| call exec setter receiver [v]
  | some (.accessor _ none) => Run.fail (.getterOnly k)
  | some (.data _ false) => Run.fail (.readOnly k)
  | some (.data _ true) | none => store receiver k v

end Member

/-- Calls a function as a constructor: with a new object that inherits from the function's
`prototype` as `this`.  The result is that object, unless the function gives one. -/
def construct (f : ObjectId) (arguments : List Value) : Run κ σ Value := do
  if (← Run.viewHeap (·.get f)).isCallable then
    let prototype ← Member.get exec f .prototype (.object f)
    let made ← Run.allocate (.make .ordinary prototype.object?)
    let result ← call exec f (.object made) arguments
    pure (if result.object?.isSome then result else .object made)
  else Run.fail .notConstructor

end Prototypal
