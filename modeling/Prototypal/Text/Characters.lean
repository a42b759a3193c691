/-!
# Text by characters

Indexing and search in text, counted in code points.
-/

namespace Prototypal.Text

/-- The character at an index, as a text of its own. -/
def charAt? (text : String) (index : Nat) : Option String :=
  (text.drop index).front?.map String.singleton

/-- One text for each character. -/
def characters (text : String) : List String :=
  text.toList.map String.singleton

/-- Whether the text begins with `part`. -/
def beginsWith (text part : String) : Bool :=
  part.toList.isPrefixOf text.toList

/-- Whether the text ends with `part`. -/
def endsWith (text part : String) : Bool :=
  part.toList.isSuffixOf text.toList

/-- Whether the text holds `part` anywhere. -/
def holds (text part : String) : Bool := text.contains part

theorem charAt?_eq (text : String) (index : Nat) :
    charAt? text index = (characters text)[index]? := by
  simp [charAt?, characters, String.Slice.front?_eq, String.toList_copy_drop]

theorem beginsWith_iff {text part : String} :
    beginsWith text part = true ↔ part.toList <+: text.toList := by
  simp [beginsWith]

theorem endsWith_iff {text part : String} :
    endsWith text part = true ↔ part.toList <:+ text.toList := by
  simp [endsWith]

theorem holds_iff {text part : String} : holds text part = true ↔ part.toList <:+: text.toList :=
  String.contains_string_iff

end Prototypal.Text
