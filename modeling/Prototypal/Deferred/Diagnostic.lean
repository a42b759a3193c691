import Prototypal.Heap.Diagnostic
import Prototypal.World

/-!
# Diagnostics of deferred results

The outcome and the number of waiting listeners.
-/

namespace Prototypal

/-- An outcome in diagnostics. -/
def Heap.outcomeDiagnostic {κ : Type} (h : Heap κ) : Option Settlement → String
  | none => "None"
  | some (.value v) => s!"Some(Value({h.diagnostic v}))"
  | some (.error v) => s!"Some(Error({h.diagnostic v}))"

namespace World

variable {κ σ : Type}

/-- A deferred in diagnostics. -/
def deferredDiagnostic (w : World κ σ) (d : DeferredId) : String :=
  let deferred := w.deferred d
  let outcome := w.heap.outcomeDiagnostic deferred.outcome
  s!"Deferred \x7b outcome: {outcome}, listeners: {deferred.listeners.length} \x7d"

/-- A promise in diagnostics. -/
def promiseDiagnostic (w : World κ σ) (p : Promise) : String :=
  s!"Promise \x7b deferred: {w.deferredDiagnostic p.deferred} \x7d"

end World

end Prototypal
