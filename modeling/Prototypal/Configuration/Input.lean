import Prototypal.Configuration.Problem

/-!
# Reading a document

The rest of a document and how far it was read.  The bytes of the document stand as the characters
of the same numbers, since places are counted in bytes.
-/

namespace Prototypal.Configuration

/-- What is left of a document. -/
structure Input where
  /-- How many bytes the document has; no reading takes more rounds. -/
  size : Nat
  /-- How many bytes were read. -/
  offset : Nat
  /-- The bytes that were not. -/
  rest : List Char

/-- A cause, and how many bytes come before its place, the offending byte included. -/
structure Failure where
  cause : Cause
  offset : Nat

/-- A reader of a part of a document. -/
abbrev Reader := StateT Input (Except Failure)

namespace Input

/-- The bytes of a text. -/
def bytes (text : String) : List Char := text.toUTF8.toList.map fun b => Char.ofNat b.toNat

/-- A document at its beginning. -/
def ofText (text : String) : Input := ⟨text.utf8ByteSize, 0, bytes text⟩

/-- The input after `n` more bytes. -/
def drop (i : Input) (n : Nat) : Input := { i with offset := i.offset + n, rest := i.rest.drop n }

end Input

/-- The text that bytes stand for. -/
def textOfBytes (bytes : List Char) : String :=
  (String.fromUTF8? ⟨(bytes.map fun c => UInt8.ofNat c.toNat).toArray⟩).getD ""

/-- Line and column of a failure in a document. -/
def Failure.problem (f : Failure) (document : String) : Problem :=
  let before := (Input.bytes document).take f.offset
  let line := before.reverse.takeWhile (· ≠ '\n')
  ⟨f.cause, 1 + before.count '\n', line.length⟩

namespace Reader

/-- The next byte, which stays. -/
def peek : Reader (Option Char) := return (← get).rest.head?

/-- Passes over a byte. -/
def skip : Reader Unit := modify (·.drop 1)

/-- Fails at the bytes read so far. -/
def failHere {α : Type} (cause : Cause) : Reader α := do throw ⟨cause, (← get).offset⟩

/-- Fails at the next byte, if there is one. -/
def failNext {α : Type} (cause : Cause) : Reader α := do
  let input ← get
  throw ⟨cause, if input.rest.isEmpty then input.offset else input.offset + 1⟩

/-- The longest run of bytes of a class, passed over. -/
def runOf (p : Char → Bool) : Reader (List Char) := do
  let taken := (← get).rest.takeWhile p
  modify (·.drop taken.length)
  return taken

/-- Whether a byte is a blank. -/
def isBlank (c : Char) : Bool := c = ' ' || c = '\n' || c = '\t' || c = '\r'

/-- The next byte that is not a blank, which stays. -/
def token : Reader (Option Char) := do
  discard <| runOf isBlank
  peek

/-- Reads the rest of a word. -/
def word : List Char → Reader Unit
  | [] => pure ()
  | wanted :: rest => do
    match ← peek with
    | none => failHere .valueEnds
    | some c =>
      skip
      if c = wanted then word rest else failHere .noWord

end Reader

end Prototypal.Configuration
