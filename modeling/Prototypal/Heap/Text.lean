import Prototypal.Heap.Basic

/-!
# Text of values

The text form of a value, the key it stands for, and its type; those of an object depend on its
kind.
-/

namespace Prototypal

/-- The text of a value that is not an object, and of an ordinary object. -/
def Value.plainText : Value → String
  | .undefined => "undefined"
  | .null => "null"
  | .boolean b => if b then "true" else "false"
  | .number n => n.toText
  | .string s => s
  | .name n => n.display
  | .object _ => "[object Object]"

namespace Heap

variable {κ : Type}

/-- The text of a value with arrays nested at most `depth` deep; a deeper one is left out. -/
def textWithin (h : Heap κ) : Nat → Value → String
  | depth, .object o =>
    match (h.get o).kind with
    | .array elements =>
      match depth with
      | 0 => ""
      | depth + 1 =>
        ",".intercalate <| elements.toList.map fun v =>
          if v.isNullish then "" else h.textWithin depth v
    | .function name _ => s!"function {name}() \x7b [native code] \x7d"
    | .ordinary => "[object Object]"
  | _, v => v.plainText

/-- The text of a value.  Arrays that do not hold themselves nest no deeper than there are objects.
-/
def text (h : Heap κ) (v : Value) : String := h.textWithin (h.size + 1) v

/-- The property key a value stands for: a private name itself, otherwise the text of the value. -/
def key (h : Heap κ) : Value → Key
  | .name n => .name n
  | v => .text (h.text v)

/-- The type of a value. -/
def typeName (h : Heap κ) : Value → TypeName
  | .object o => if (h.get o).isCallable then .function else .object
  | v => v.typeName

/-- The object of a value that can be called. -/
def callable? (h : Heap κ) (v : Value) : Option ObjectId :=
  v.object?.filter fun o => (h.get o).isCallable

end Heap

end Prototypal
