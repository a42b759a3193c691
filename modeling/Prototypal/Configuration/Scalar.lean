import Prototypal.Configuration.Input

/-!
# Strings and numbers in a document

What a document says is read exactly where a value is reported, and only passed over where it
belongs to an unknown option.
-/

namespace Prototypal.Configuration.Reader

/-! ## Strings, after the opening quote -/

/-- The value of a hexadecimal digit. -/
def hexDigit? (c : Char) : Option Nat :=
  if c.isDigit then some (c.toNat - '0'.toNat)
  else if 'a' ≤ c ∧ c ≤ 'f' then some (c.toNat - 'a'.toNat + 10)
  else if 'A' ≤ c ∧ c ≤ 'F' then some (c.toNat - 'A'.toNat + 10)
  else none

/-- The number of four hexadecimal digits. -/
def fourHexDigits : Reader Nat := do
  let digits := (← get).rest.take 4
  modify (·.drop digits.length)
  if digits.length < 4 then failHere .stringEnds
  else
    match digits.mapM hexDigit? with
    | some values => return values.foldl (fun n d => 16 * n + d) 0
    | none => failHere .invalidEscape

/-- The next byte of a string, passed over. -/
def nextInString : Reader Char := do
  match ← peek with
  | none => failHere .stringEnds
  | some c => skip; return c

/-- The second half of a pair of surrogates. -/
def lowSurrogate : Reader Nat := do
  if (← nextInString) ≠ '\\' then failHere .unpairedSurrogate
  if (← nextInString) ≠ 'u' then failHere .unpairedSurrogate
  let low ← fourHexDigits
  if 0xdc00 ≤ low ∧ low ≤ 0xdfff then return low else failHere .loneSurrogate

/-- The code point of a hexadecimal escape; two surrogates make one. -/
def escapedCodePoint : Reader Nat := do
  let n ← fourHexDigits
  if 0xdc00 ≤ n ∧ n ≤ 0xdfff then failHere .loneSurrogate
  else if 0xd800 ≤ n ∧ n ≤ 0xdbff then
    return 0x10000 + (n - 0xd800) * 0x400 + ((← lowSurrogate) - 0xdc00)
  else return n

/-- The character of a short escape. -/
def shortEscape? : Char → Option Char
  | '"' => some '"'
  | '\\' => some '\\'
  | '/' => some '/'
  | 'b' => some '\x08'
  | 'f' => some '\x0c'
  | 'n' => some '\n'
  | 'r' => some '\r'
  | 't' => some '\t'
  | _ => none

/-- The bytes of an escape, after the backslash. -/
def escape : Reader (List Char) := do
  let c ← nextInString
  if c = 'u' then return Input.bytes (String.singleton (.ofNat (← escapedCodePoint)))
  else
    match shortEscape? c with
    | some e => return [e]
    | none => failHere .invalidEscape

/-- Passes over an escape; surrogates need not come in pairs. -/
def skipEscape : Reader (List Char) := do
  let c ← nextInString
  if c = 'u' then discard fourHexDigits
  else if (shortEscape? c).isNone then failHere .invalidEscape
  return []

/-- The bytes of a string of at most `n` parts, given what is done after a backslash and what at a
control character. -/
def stringWith (escape control : Reader (List Char)) : Nat → Reader (List Char)
  | 0 => failHere .stringEnds
  | n + 1 => do
    let part ← runOf fun c => c ≠ '"' && c ≠ '\\' && 0x20 ≤ c.toNat
    match ← peek with
    | none => failHere .stringEnds
    | some '"' => skip; return part
    | some '\\' =>
      skip
      let escaped ← escape
      return part ++ escaped ++ (← stringWith escape control n)
    | some _ => control

/-- The text of a string.  The place of a control character is after it. -/
def string : Reader String := do
  let control := failNext .controlCharacter
  return textOfBytes (← stringWith escape control ((← get).size + 1))

/-- Passes over a string.  The place of a control character is before it. -/
def skipString : Reader Unit := do
  let control := failHere .controlCharacter
  discard <| stringWith skipEscape control ((← get).size + 1)

/-! ## Numbers, after the sign -/

/-- The largest significand that is kept; further digits only count. -/
def maxSignificand : Nat := Nat.pow 2 64 - 1

/-- The binary64 value nearest to a power of ten. -/
def powerOfTen (n : Nat) : Rat := ((Number.round (Nat.pow 10 n)).toRat?).getD 0

/-- A binary64 value times a power of ten, in steps that each round; nothing if it is too large. -/
def scaleByTen : Nat → Rat → Int → Option Rat
  | 0, _, _ => none
  | steps + 1, q, e =>
    if e.natAbs ≤ 308 then
      (Number.round (if 0 ≤ e then q * powerOfTen e.natAbs else q / powerOfTen e.natAbs)).toRat?
    else if q = 0 then some 0
    else if 0 ≤ e then none
    else (Number.round (q / powerOfTen 308)).toRat?.bind fun q => scaleByTen steps q (e + 308)

/-- The number with the given significand and power of ten. -/
def float (negative : Bool) (significand : Nat) (exponent : Int) : Reader Found := do
  match (Number.round significand).toRat?.bind fun q => scaleByTen 4 q exponent with
  | some q => return .float (Number.signed negative q)
  | none => failHere .numberOutOfRange

/-- The value of a digit. -/
def digitValue (c : Char) : Nat := c.toNat - '0'.toNat

/-- Takes digits into a significand as long as it stays in range: the significand and the digits
that are left. -/
def takeDigits (significand : Nat) : List Char → Nat × List Char
  | [] => (significand, [])
  | c :: rest =>
    let more := 10 * significand + digitValue c
    if maxSignificand < more then (significand, c :: rest) else takeDigits more rest

/-- The largest exponent that is read exactly. -/
def maxExponent : Nat := Nat.pow 2 31 - 1

/-- Reads the digits of an exponent; nothing if they exceed every exponent, which is then left as
soon as it does. -/
def exponentDigits : Nat → List Char → Option Nat × Nat
  | value, [] => (some value, 0)
  | value, c :: rest =>
    let more := 10 * value + digitValue c
    if maxExponent < more then (none, 1)
    else
      let (result, length) := exponentDigits more rest
      (result, length + 1)

/-- A number from its exponent on, the mark of the exponent being next. -/
def withExponent (negative : Bool) (significand : Nat) (start : Int) : Reader Found := do
  skip
  let sign ← peek
  if sign = some '+' ∨ sign = some '-' then skip
  match ← peek with
  | none => failHere .valueEnds
  | some c =>
    if !c.isDigit then skip; failHere .invalidNumber
    else
      let digits := (← get).rest.takeWhile Char.isDigit
      let (exponent, length) := exponentDigits 0 digits
      modify (·.drop length)
      match exponent with
      | some e => float negative significand (if sign = some '-' then start - e else start + e)
      | none =>
        if significand ≠ 0 ∧ sign ≠ some '-' then failHere .numberOutOfRange
        else
          discard <| runOf Char.isDigit
          return .float (Number.signed negative 0)

/-- A number from its fraction on, the point being next. -/
def withFraction (negative : Bool) (significand : Nat) (start : Int) : Reader Found := do
  skip
  let digits ← runOf Char.isDigit
  if digits.isEmpty then
    if (← peek).isSome then failNext .invalidNumber else failNext .valueEnds
  else
    let (significand, left) := takeDigits significand digits
    let start := start - (digits.length - left.length : Nat)
    match ← peek with
    | some 'e' | some 'E' => withExponent negative significand start
    | _ => float negative significand start

/-- Whether the digits that are next start with a zero that no number may start with. -/
def isPadded : Reader Bool := do
  let rest := (← get).rest
  return rest.head? == some '0' && (rest.drop 1).head?.any Char.isDigit

/-- A number.  Whole numbers of 64 bits are integers, all others and negative zero are not. -/
def number (negative : Bool) : Reader Found := do
  match ← peek with
  | none => failHere .valueEnds
  | some c =>
    if !c.isDigit then skip; failHere .invalidNumber
    else if ← isPadded then skip; failNext .invalidNumber
    else
      let (significand, left) := takeDigits 0 (← runOf Char.isDigit)
      match ← peek with
      | some '.' => withFraction negative significand left.length
      | some 'e' | some 'E' => withExponent negative significand left.length
      | _ =>
        if !left.isEmpty then float negative significand left.length
        else if !negative then return .integer significand
        else if 0 < significand ∧ significand ≤ Nat.pow 2 63 then return .integer (-significand)
        else float negative significand 0

/-- Passes over an exponent, its mark being next. -/
def skipExponent : Reader Unit := do
  skip
  let sign ← peek
  if sign = some '+' ∨ sign = some '-' then skip
  let digit ← peek
  if digit.isSome then skip
  if digit.any Char.isDigit then discard <| runOf Char.isDigit else failHere .invalidNumber

/-- Passes over a number. -/
def skipNumber : Reader Unit := do
  match ← peek with
  | none => failHere .invalidNumber
  | some c =>
    if !c.isDigit then skip; failHere .invalidNumber
    else if ← isPadded then skip; failNext .invalidNumber
    else
      discard <| runOf Char.isDigit
      if (← peek) = some '.' then
        skip
        if (← runOf Char.isDigit).isEmpty then failNext .invalidNumber
      if (← peek) = some 'e' ∨ (← peek) = some 'E' then skipExponent

end Prototypal.Configuration.Reader
