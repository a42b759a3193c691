import Prototypal.Name.StorageKey

/-!
# Private names

A private name is a property key that no text equals.  A `NameSource` makes names and storage keys;
each key carries the count of keys made so far, so no key is made twice.
-/

namespace Prototypal

/-- A private name.  Names made at different times are different, whatever their display. -/
structure PrivateName where
  /-- Which of the names made by its source this one is. -/
  serial : Nat
  /-- What the name is written as. -/
  display : String
  /-- The reserved text that stands for the name in storage. -/
  storageKey : String
deriving DecidableEq, Repr

/-- Where storage keys and private names come from. -/
structure NameSource where
  /-- The random part of each key, by its count. -/
  draw : Nat → Nat
  /-- Whether keys carry their random part; otherwise it is written as zero. -/
  randomized : Bool
  /-- How many keys were made. -/
  keys : Nat
  /-- How many names were made. -/
  names : Nat

namespace NameSource

/-- The bound, exclusive, of the random part. -/
def randomRange : Nat := Nat.pow 10 9

/-- Keys are counted in a machine word. -/
def countRange : Nat := Nat.pow 2 64

/-- The source before its first key, with randomised keys. -/
def initial (draw : Nat → Nat) : NameSource := ⟨draw, true, 0, 0⟩

/-- The next storage key. -/
def nextKey (source : NameSource) : String × NameSource :=
  let count := source.keys + 1
  let random := if source.randomized then source.draw count % randomRange else 0
  (StorageKey.write random (count % countRange), { source with keys := count })

/-- The next private name.  A name without a display, or with an empty one, is displayed as a key
made for it. -/
def nextName (source : NameSource) (display : Option String) : PrivateName × NameSource :=
  let (display, source) :=
    match display.filter (· ≠ "") with
    | some text => (text, source)
    | none => source.nextKey
  let (key, source) := source.nextKey
  (⟨source.names, display, key⟩, { source with names := source.names + 1 })

end NameSource

/-! ## Well-known names -/

/-- The names that the library itself looks up. -/
structure WellKnownNames where
  /-- A method under this name answers computed reads. -/
  elementGet : PrivateName
  /-- A method under this name takes computed writes. -/
  elementSet : PrivateName
  /-- A method under this name takes computed deletes. -/
  elementDelete : PrivateName
  /-- A method under this name makes an iterator. -/
  iterator : PrivateName
  /-- An object with this name is its own iterator. -/
  generator : PrivateName
deriving DecidableEq, Repr

namespace WellKnownNames

/-- The well-known names, made in a fixed order with fixed displays. -/
def make (source : NameSource) : WellKnownNames × NameSource :=
  let (elementGet, source) := source.nextName (some "elementGet")
  let (elementSet, source) := source.nextName (some "elementSet")
  let (elementDelete, source) := source.nextName (some "elementDelete")
  let (iterator, source) := source.nextName (some "iterator")
  let (generator, source) := source.nextName (some "generator")
  (⟨elementGet, elementSet, elementDelete, iterator, generator⟩, source)

end WellKnownNames

end Prototypal
