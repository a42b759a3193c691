import Prototypal.Call

/-!
# Firing, listening, cancelling

A deferred fires once.  Its listeners then run in the order of their registration, each exactly
once, and each settles the deferred chained to it.  Handlers may use any deferred again, so the
loops have fuel.
-/

namespace Prototypal.Deferred

variable {κ σ : Type}

/-- What a handler makes of a settlement: its result, or its fault as an error object. -/
def settlementOf : Except Fault Value → Run κ σ Settlement
  | .ok v => pure (.value v)
  | .error f => .error <$> Run.reify f

/-- Sets the outcome of an unfired deferred and tells its listeners. -/
def fireWith (notify : DeferredId → Run κ σ Unit) (d : DeferredId) (s : Settlement) :
    Run κ σ Unit := do
  let deferred ← Run.view (·.deferred d)
  if deferred.isFired then Run.fail .alreadyFired
  else
    Run.modify (·.setDeferred d { deferred with outcome := some s })
    notify d

variable (exec : Exec κ σ)

/-- Runs the handler of a listener; an absent one gives `undefined`. -/
def handle (l : Listener κ) (s : Settlement) : Run κ σ Value :=
  match l.handler? s with
  | some code => exec (.client code) (.settle l.promise s.payload)
  | none => pure .undefined

/-- Tells the listeners of a fired deferred, one after the other, until none is left.  Each is taken
off the queue before its handler runs. -/
def notify : Nat → DeferredId → Run κ σ Unit
  | 0, _ => Run.exhausted
  | n + 1, d => do
    let deferred ← Run.view (·.deferred d)
    match deferred.outcome, deferred.listeners.pop? with
    | some outcome, some (l, rest) =>
      Run.modify (·.setDeferred d { deferred with listeners := rest })
      let settlement ← settlementOf (← (handle exec l outcome).attempt)
      discard <| (fireWith (notify n) l.promise.deferred settlement).attempt
      notify n d
    | _, _ => pure ()

/-- Fires a deferred.  One that is chained to another stays as it is: its consumers have only the
promise. -/
def fire (n : Nat) (d : DeferredId) (s : Settlement) : Run κ σ Unit := do
  if (← Run.view (·.deferred d)).isChained then pure () else fireWith (notify exec n) d s

/-- Registers handlers and gives the promise of what they make of the outcome.  Cancelling that
promise cancels the deferred. -/
def listen (n : Nat) (d : DeferredId) (callback errback : Option κ) : Run κ σ Promise := do
  if ← Run.view (·.containsDeferred d) then
    let promise : Promise := ⟨← Run.modifyGet (·.addDeferred (some (.parent d)))⟩
    let deferred ← Run.view (·.deferred d)
    Run.modify (·.setDeferred d
      { deferred with listeners := deferred.listeners.push ⟨promise, callback, errback⟩ })
    if deferred.isFired then notify exec n d
    pure promise
  else
    .mk <$> Run.modifyGet (·.addDeferred none)

/-- Lets go of the last reference to a deferred.  What is chained to it does not keep it. -/
def release (d : DeferredId) : Run κ σ Unit := do
  let deferred ← Run.view (·.deferred d)
  Run.modify (·.setDeferred d { deferred with released := true })

/-- Runs a canceller; one that has nothing to give gives `undefined`.  What is chained to a deferred
cancels it only as long as something else refers to it. -/
def runCanceller (cancel : DeferredId → Run κ σ Unit) (d : DeferredId) :
    Option (Canceller κ) → Run κ σ Value
  | none => pure .undefined
  | some (.client code) => exec (.client code) (.cancel d)
  | some (.parent p) => do
    if (← Run.view (·.deferred p)).released then pure .undefined
    else
      cancel p
      pure .undefined

/-- Why a deferred is cancelled: the result of its canceller, or an error object for `undefined`. -/
def reasonOf (result : Value) : Run κ σ Value :=
  if result = .undefined then Run.reify .cancelled else pure result

/-- Sets the outcome of a cancelled deferred and tells its listeners, unless it fired meanwhile. -/
def abort (notify : DeferredId → Run κ σ Unit) (d : DeferredId) (reason : Value) :
    Run κ σ Unit := do
  let deferred ← Run.view (·.deferred d)
  if deferred.isFired then pure ()
  else
    Run.modify (·.setDeferred d { deferred with outcome := some (.error reason) })
    notify d

/-- Cancels an unfired deferred: the canceller runs, and unless it fired the deferred itself, the
listeners are told the reason. -/
def cancel : Nat → DeferredId → Run κ σ Unit
  | 0, _ => Run.exhausted
  | n + 1, d => do
    let deferred ← Run.view (·.deferred d)
    if deferred.isFired then Run.fail .alreadyFinished
    else
      let result ← runCanceller exec (cancel n) d deferred.canceller
      abort (notify exec n) d (← reasonOf result)

end Prototypal.Deferred
