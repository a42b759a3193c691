import Prototypal.Configuration.Problem

/-!
# Configurations

The options of a realm and their defaults.
-/

namespace Prototypal

/-- The options of a realm. -/
structure Configuration where
  /-- Whether storage keys carry a random part. -/
  randomizeKeys : Bool := true
  /-- Whether arrays of the realm can be iterated. -/
  iterableArrays : Bool := true
deriving DecidableEq, Repr

instance : Inhabited Configuration := ⟨{}⟩

end Prototypal
