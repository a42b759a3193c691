import Prototypal.Class
import Prototypal.Deferred.Firing
import Prototypal.Program

/-!
# Running client programs

`perform` carries out an operation, `execute` runs the body of a function or the code of a handler,
and `Program.run` a whole program.  Each entry into a body takes one unit of fuel, and so does each
round of a loop within an operation.
-/

namespace Prototypal

variable {κ σ : Type}

/-- Carries out an operation, with `exec` for the bodies it enters and fuel `n` for its loops. -/
def perform (exec : Exec κ σ) (n : Nat) {α : Type} : Request κ α → Run κ σ α
  | .newObject prototype => Allocation.ordinary prototype
  | .newFunction name code => Allocation.function name code
  | .newConstructor name code => Allocation.constructor name code
  | .newArray elements prototype => Allocation.array elements prototype
  | .reify f => Run.reify f
  | .push o v => Run.changeGet o (·.push v)
  | .setPrototype o prototype => Run.setPrototype o prototype
  | .preventExtensions o => Run.change o fun object => .ok { object with extensible := false }
  | .get o k receiver => Member.get exec o k receiver
  | .set o k v receiver => Member.set exec o k v receiver
  | .define o k d => Run.change o (·.define k d)
  | .delete o k => Run.change o (·.delete k)
  | .call f this arguments => call exec f this arguments
  | .construct f arguments => construct exec f arguments
  | .accessGet owner k => Access.get exec owner k
  | .accessSet owner k v => Access.set exec owner k v
  | .accessDelete owner k => Access.delete owner k
  | .accessDefine owner k d => Access.define owner k d
  | .computedGet owner key => ComputedAccess.get exec owner key
  | .computedSet owner key v => ComputedAccess.set exec owner key v
  | .computedDelete owner key => ComputedAccess.delete exec owner key
  | .createClass constructor members parent => Class.create exec constructor members parent
  | .superCall self constructor k arguments => Class.superCall exec self constructor k arguments
  | .superGet self constructor k => Class.superGet exec self constructor k
  | .superSet self constructor k v => Class.superSet exec self constructor k v
  | .markMethods o names => Class.markMethods o names
  | .iterator collection => Iteration.iterator exec collection
  | .markGenerator o => Iteration.markGenerator o
  | .installIterator o => Iteration.install o
  | .forEach collection visitor =>
    Iteration.forEach exec n collection fun v => discard <| exec (.client visitor) (.visit v)
  | .spread items => Spread.arguments exec items
  | .spreadConstruct f items => Spread.construct exec f items
  | .newKey => Run.drawName NameSource.nextKey
  | .newName display => Run.drawName (·.nextName display)
  | .setRandomized on => Realm.setRandomized on
  | .newRealm configuration => Realm.create configuration
  | .realmArray realm elements => realm.array elements
  | .realmSpreadArray realm items => realm.spreadArray exec items
  | .newDeferred canceller => Run.modifyGet (·.addDeferred (canceller.map .client))
  | .fire d s => Deferred.fire exec n d s
  | .listen d callback errback => Deferred.listen exec n d callback errback
  | .cancel d => Deferred.cancel exec n d
  | .release d => Deferred.release d

/-- Runs a program, with a meaning for the operations it asks for. -/
def Program.runWith (perform : {α : Type} → Request κ α → Run κ σ α) :
    Program κ σ → Run κ σ Value
  | .done result, w => Run.ofExcept result w
  | .act action next, w =>
    let (a, client) := action w.client
    (next a).runWith perform { w with client }
  | .look question next, w => (next (question.answer w)).runWith perform w
  | .ask request next, w =>
    match perform request w with
    | .value a w => (next (.ok a)).runWith perform w
    | .fault f w => (next (.error f)).runWith perform w
    | .exhausted => .exhausted

/-- Runs a body: client code by `run`, and a function of iteration with `exec` for the bodies it
enters. -/
def enter (run : κ → Invocation → Run κ σ Value) (exec : Exec κ σ) : Exec κ σ
  | .client code, invocation => run code invocation
  | .iterate, .call this _ => Iteration.makeIterator this
  | .iterate, _ => pure .undefined
  | .current cursor source, _ => Iteration.current exec cursor source
  | .moveNext cursor source, _ => Iteration.moveNext exec cursor source

/-- Runs a body, or the code of a client. -/
def execute (client : Client κ σ) : Nat → Exec κ σ
  | 0 => fun _ _ => Run.exhausted
  | n + 1 =>
    enter (fun code invocation => (client code invocation).runWith (perform (execute client n) n))
      (execute client n)

/-- Runs a program with the given fuel. -/
def Program.run (client : Client κ σ) (fuel : Nat) (p : Program κ σ) : Run κ σ Value :=
  p.runWith (perform (execute client fuel) fuel)

end Prototypal
