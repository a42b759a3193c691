import Prototypal.Allocation
import Prototypal.Configuration.Basic
import Prototypal.Iteration
import Prototypal.Spread

/-!
# Realms

A realm has a configuration and a prototype that its arrays share.  Whether storage keys carry a
random part holds for the whole world: the realm made last decides it.
-/

namespace Prototypal

/-- A realm. -/
structure Realm where
  configuration : Configuration
  arrayPrototype : ObjectId
deriving DecidableEq, Repr

namespace Realm

variable {κ σ : Type}

/-- Switches the random part of later storage keys on or off. -/
def setRandomized (on : Bool) : Run κ σ Unit :=
  Run.drawName fun source => ((), { source with randomized := on })

/-- A new realm. -/
def create (configuration : Configuration) : Run κ σ Realm := do
  setRandomized configuration.randomizeKeys
  let arrayPrototype ← Allocation.ordinary none
  if configuration.iterableArrays then Iteration.install arrayPrototype
  pure ⟨configuration, arrayPrototype⟩

/-- A new array of the realm. -/
def array (realm : Realm) (elements : List Value) : Run κ σ ObjectId :=
  Allocation.array elements (some realm.arrayPrototype)

/-- A new array of the realm, of spread items. -/
def spreadArray (exec : Exec κ σ) (realm : Realm) (items : List SpreadItem) : Run κ σ ObjectId := do
  realm.array (← Spread.arguments exec items)

end Realm

/-! ## Libraries -/

/-- A library of well-known names that client code can import. -/
inductive Library where
  /-- Names of the methods that take over computed access. -/
  | computedAccess
  /-- Names of iteration. -/
  | iteration
deriving DecidableEq, Repr

namespace Library

/-- The library of a specifier. -/
def resolve? (specifier : String) : Option Library :=
  if specifier = "@name" then some .computedAccess
  else if specifier = "@iter" then some .iteration
  else none

/-- The names a library exports. -/
def exports (names : WellKnownNames) : Library → List PrivateName
  | .computedAccess => [names.elementGet, names.elementSet, names.elementDelete]
  | .iteration => [names.iterator, names.generator]

end Library

end Prototypal
