import Prototypal.Deferred.Basic
import Prototypal.Heap.Chain
import Prototypal.Heap.Text

/-!
# The world

All state: the objects, the positions of array iterators, the deferred results, the source of names,
and the state of the client.
-/

namespace Prototypal

/-- The position of an array iterator, a machine word.  The word before zero stands before the first
element. -/
structure Cursor where
  position : UInt64
deriving DecidableEq, Repr

namespace Cursor

/-- Before the first element. -/
def start : Cursor := ⟨0 - 1⟩

/-- The index of the next element. -/
def next (c : Cursor) : UInt64 := c.position + 1

/-- The index of the element the cursor stands at, unless it is before the first. -/
def index? (c : Cursor) : Option Nat :=
  if c = start then none else some c.position.toNat

end Cursor

/-- The state of everything. -/
structure World (κ σ : Type) where
  heap : Heap κ
  cursors : Array Cursor
  deferreds : Array (Deferred κ)
  names : NameSource
  wellKnown : WellKnownNames
  client : σ

namespace World

variable {κ σ : Type}

/-- The first world: the well-known names are made, and nothing else. -/
def boot (source : NameSource) (client : σ) : World κ σ :=
  let (wellKnown, names) := WellKnownNames.make source
  ⟨.empty, #[], #[], names, wellKnown, client⟩

theorem heap_boot (source : NameSource) (client : σ) :
    (boot source client : World κ σ).heap = .empty := by
  unfold boot
  split
  rfl

theorem cursors_boot (source : NameSource) (client : σ) :
    (boot source client : World κ σ).cursors = #[] := by
  unfold boot
  split
  rfl

theorem deferreds_boot (source : NameSource) (client : σ) :
    (boot source client : World κ σ).deferreds = #[] := by
  unfold boot
  split
  rfl

/-! ## Cursors -/

/-- The cursor of a reference. -/
def cursor (w : World κ σ) (c : CursorId) : Cursor := w.cursors[c.index]?.getD .start

/-- Moves a cursor. -/
def setCursor (w : World κ σ) (c : CursorId) (cursor : Cursor) : World κ σ :=
  { w with cursors := w.cursors.setIfInBounds c.index cursor }

/-- Adds a cursor before the first element. -/
def addCursor (w : World κ σ) : CursorId × World κ σ :=
  (⟨w.cursors.size⟩, { w with cursors := w.cursors.push .start })

/-! ## Deferred results -/

/-- Whether a reference is to a deferred that was made. -/
def containsDeferred (w : World κ σ) (d : DeferredId) : Bool := d.index < w.deferreds.size

/-- The deferred of a reference; a reference to none stands for an inert one. -/
def deferred (w : World κ σ) (d : DeferredId) : Deferred κ := w.deferreds[d.index]?.getD .inert

/-- Stores a deferred under an existing reference. -/
def setDeferred (w : World κ σ) (d : DeferredId) (deferred : Deferred κ) : World κ σ :=
  { w with deferreds := w.deferreds.setIfInBounds d.index deferred }

/-- Adds an unfired deferred. -/
def addDeferred (w : World κ σ) (canceller : Option (Canceller κ)) : DeferredId × World κ σ :=
  (⟨w.deferreds.size⟩, { w with deferreds := w.deferreds.push (.fresh canceller) })

theorem deferred_congr {τ : Type} {w : World κ σ} {w' : World κ τ}
    (same : w'.deferreds = w.deferreds) (d : DeferredId) : w'.deferred d = w.deferred d := by
  rw [deferred, deferred, same]

theorem deferred_of_not_contains {w : World κ σ} {d : DeferredId}
    (hd : w.containsDeferred d = false) : w.deferred d = .inert := by
  have : w.deferreds.size ≤ d.index := Nat.le_of_not_lt (of_decide_eq_false hd)
  simp [deferred, Array.getElem?_eq_none this]

theorem containsDeferred_setDeferred (w : World κ σ) (d e : DeferredId) (x : Deferred κ) :
    (w.setDeferred d x).containsDeferred e = w.containsDeferred e := by
  simp [containsDeferred, setDeferred]

theorem deferred_setDeferred_self {w : World κ σ} {d : DeferredId} (x : Deferred κ)
    (hd : w.containsDeferred d = true) : (w.setDeferred d x).deferred d = x := by
  have : d.index < w.deferreds.size := of_decide_eq_true hd
  simp [deferred, setDeferred, this]

theorem deferred_setDeferred_of_ne (w : World κ σ) {d e : DeferredId} (x : Deferred κ)
    (he : e ≠ d) : (w.setDeferred d x).deferred e = w.deferred e := by
  have : d.index ≠ e.index := fun h => he (by cases d; cases e; simp_all)
  simp [deferred, setDeferred, Array.getElem?_setIfInBounds_ne this]

theorem containsDeferred_addDeferred (w : World κ σ) (canceller : Option (Canceller κ))
    (d : DeferredId) :
    (w.addDeferred canceller).2.containsDeferred d =
      (w.containsDeferred d || d == (w.addDeferred canceller).1) := by
  rw [Bool.eq_iff_iff]
  cases d
  simp [containsDeferred, addDeferred]
  omega

theorem not_containsDeferred_addDeferred (w : World κ σ) (canceller : Option (Canceller κ)) :
    w.containsDeferred (w.addDeferred canceller).1 = false := by
  simp [containsDeferred, addDeferred]

theorem deferred_addDeferred_self (w : World κ σ) (canceller : Option (Canceller κ)) :
    (w.addDeferred canceller).2.deferred (w.addDeferred canceller).1 = .fresh canceller := by
  simp [deferred, addDeferred]

theorem deferred_addDeferred_of_ne (w : World κ σ) (canceller : Option (Canceller κ))
    {d : DeferredId} (hd : d ≠ (w.addDeferred canceller).1) :
    (w.addDeferred canceller).2.deferred d = w.deferred d := by
  have : d.index ≠ w.deferreds.size := fun h => hd (by cases d; simp_all [addDeferred])
  simp [deferred, addDeferred, Array.getElem?_push, this]

end World

end Prototypal
