import Prototypal.Text.Unprintable

/-!
# Quoted text

Text between double quotes, as diagnostics show it: quotes, backslashes and line controls have short
escapes, and a character that does not show by itself is written by its code point.
-/

namespace Prototypal.Text

/-- The escape of a character by its code point, in hexadecimal. -/
def codePointEscape (c : Char) : List Char :=
  ['\\', 'u', '{'] ++ Nat.toDigits 16 c.toNat ++ ['}']

/-- How a character stands in quoted text. -/
def quotedChar (c : Char) : List Char :=
  match c with
  | '"' => ['\\', '"']
  | '\\' => ['\\', '\\']
  | '\n' => ['\\', 'n']
  | '\r' => ['\\', 'r']
  | '\t' => ['\\', 't']
  | '\x00' => ['\\', '0']
  | c => if isUnprintable c then codePointEscape c else [c]

/-- The text between double quotes. -/
def quoted (text : String) : String :=
  String.ofList ('"' :: text.toList.flatMap quotedChar ++ ['"'])

end Prototypal.Text
