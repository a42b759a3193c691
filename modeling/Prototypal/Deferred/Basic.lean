import Prototypal.Queue
import Prototypal.Value

/-!
# Deferred results

The state of a single-shot result: what it fired with, if it did, and who is still to be told.
-/

namespace Prototypal

/-- A reference to a deferred result. -/
structure DeferredId where
  index : Nat
deriving DecidableEq, Repr, Inhabited

/-- The consumer's side of a deferred result: it can be listened to and cancelled, not fired. -/
structure Promise where
  deferred : DeferredId
deriving DecidableEq, Repr, Inhabited

/-- What a deferred fires with. -/
inductive Settlement where
  | value (v : Value)
  | error (v : Value)
deriving DecidableEq, Repr

/-- Who is told, and the promise of what the handler makes of it. -/
structure Listener (κ : Type) where
  promise : Promise
  callback : Option κ
  errback : Option κ
deriving DecidableEq, Repr

/-- The handler that a listener has for a settlement. -/
def Listener.handler? {κ : Type} (l : Listener κ) : Settlement → Option κ
  | .value _ => l.callback
  | .error _ => l.errback

/-- The value of a settlement. -/
def Settlement.payload : Settlement → Value
  | .value v | .error v => v

/-- What cancelling does before the deferred itself is settled. -/
inductive Canceller (κ : Type) where
  /-- Runs client code; its result becomes the error. -/
  | client (code : κ)
  /-- Cancels the deferred that this one is chained to. -/
  | parent (deferred : DeferredId)
deriving DecidableEq, Repr

/-- A deferred result. -/
structure Deferred (κ : Type) where
  outcome : Option Settlement
  listeners : Queue (Listener κ)
  canceller : Option (Canceller κ)
  /-- Nothing refers to it any more, but for what is chained to it. -/
  released : Bool
deriving DecidableEq, Repr

namespace Deferred

/-- An unfired deferred without listeners. -/
def fresh {κ : Type} (canceller : Option (Canceller κ)) : Deferred κ :=
  ⟨none, .empty, canceller, false⟩

/-- What a reference to no deferred stands for: it has fired, and nobody listens. -/
def inert {κ : Type} : Deferred κ := ⟨some (.value .undefined), .empty, none, false⟩

/-- Whether the deferred has fired. -/
def isFired {κ : Type} (d : Deferred κ) : Bool := d.outcome.isSome

/-- Whether the deferred is chained to another one, which alone fires it. -/
def isChained {κ : Type} (d : Deferred κ) : Bool :=
  match d.canceller with
  | some (.parent _) => true
  | _ => false

end Deferred

end Prototypal
