import Prototypal.Heap.Basic

/-!
# Diagnostics of values

How values and objects show themselves in diagnostics.  Of an object that is its kind and the keys
of its table; elements, prototypes and property values are left out, as objects may hold each other.
-/

namespace Prototypal

/-- A name in diagnostics; its storage key is not shown. -/
def PrivateName.diagnostic (n : PrivateName) : String := s!"PrivateName({n.display})"

/-- A key in diagnostics. -/
def Key.diagnostic : Key → String
  | .text s => s!"String({Text.quoted s})"
  | .name n => s!"Private({n.diagnostic})"

namespace Object

variable {κ : Type}

/-- The kind of an object in diagnostics. -/
def kindDiagnostic (o : Object κ) : String :=
  match o.kind with
  | .ordinary => "Object"
  | .function name _ => s!"Function({name})"
  | .array elements => s!"Array({elements.length})"

/-- An object in diagnostics. -/
def diagnostic (o : Object κ) : String :=
  let keys := ", ".intercalate (o.table.keys.map Key.diagnostic)
  s!"JsObject \x7b kind: {Text.quoted o.kindDiagnostic}, keys: [{keys}] \x7d"

end Object

/-- A value in diagnostics. -/
def Heap.diagnostic {κ : Type} (h : Heap κ) : Value → String
  | .undefined => "Undefined"
  | .null => "Null"
  | .boolean b => s!"Boolean({b})"
  | .number n => s!"Number({n.describe .diagnostic})"
  | .string s => s!"String({Text.quoted s})"
  | .name n => s!"Name({n.diagnostic})"
  | .object o => s!"Object({(h.get o).diagnostic})"

end Prototypal
