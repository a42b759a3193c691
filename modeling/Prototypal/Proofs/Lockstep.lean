import Prototypal.Access
import Prototypal.Allocation
import Prototypal.Proofs.Agreement
import Prototypal.Proofs.HeapStep

/-!
# Worlds in lockstep

A relation of worlds is a lockstep if the library cannot tell related worlds apart, and worlds stay
related when the library takes the same step in both.  The client's state is free.
-/

namespace Prototypal

open Run (Agree)

variable {κ σ τ α β : Type} {S : Heap κ → Heap κ → Prop} {R : World κ σ → World κ τ → Prop}

/-- The library sees the same in related worlds, and its steps keep worlds related as long as no key
is made, and no iterator is made or moved. -/
structure PlainLockstep (S : Heap κ → Heap κ → Prop) (R : World κ σ → World κ τ → Prop) : Prop where
  heap {v w} : R v w → v.heap = w.heap
  cursors {v w} : R v w → v.cursors = w.cursors
  names {v w} : R v w → v.names = w.names
  deferreds {v w} : R v w → v.deferreds = w.deferreds
  wellKnown {v w} : R v w → v.wellKnown = w.wellKnown
  step {v w h} : R v w → S v.heap h → R { v with heap := h } { w with heap := h }
  switch {v w} (on : Bool) : R v w →
    R { v with names := { v.names with randomized := on } }
      { w with names := { v.names with randomized := on } }
  includes : Heap.Includes S

/-- The library sees the same in related worlds, and its steps keep worlds related as long as no key
is made. -/
structure QuietLockstep (S : Heap κ → Heap κ → Prop) (R : World κ σ → World κ τ → Prop) : Prop
    extends PlainLockstep S R where
  move {v w} (c : Array Cursor) : R v w → R { v with cursors := c } { w with cursors := c }
  /-- What the library does by itself is among the steps. -/
  covers : Heap.Covers S
  includes := covers.toIncludes

/-- The library sees the same in related worlds, and its steps keep worlds related. -/
structure Lockstep (S : Heap κ → Heap κ → Prop) (R : World κ σ → World κ τ → Prop) : Prop
    extends QuietLockstep S R where
  draw {v w} (n : NameSource) : R v w → R { v with names := n } { w with names := n }
  switch _ h := draw _ h

/-- The steps include a definition, on whatever heap it is made. -/
def Heap.Permits (S : Heap κ → Heap κ → Prop) (o : ObjectId) (k : Key) (d : Descriptor) : Prop :=
  ∀ {h : Heap κ} {object}, (h.get o).define k d = .ok object → S h (h.set o object)

namespace PlainLockstep

variable (L : PlainLockstep S R)
include L

/-! ## Steps -/

/-- After a look at the heap it is known what was seen. -/
theorem viewHeapBind {f : Heap κ → α} {x : α → Run κ σ β} {y : α → Run κ τ β}
    (h : ∀ {v w}, R v w → (x (f v.heap) v).Agree R (y (f v.heap) w)) :
    Agree R (Run.viewHeap f >>= x) (Run.viewHeap f >>= y) := by
  intro v w hvw
  have := h hvw
  rw [Run.bind_apply, Run.bind_apply]
  simp only [Run.viewHeap, Run.view, ← L.heap hvw]
  exact this

theorem viewHeap (f : Heap κ → α) : Agree R (Run.viewHeap f) (Run.viewHeap f) :=
  .view fun h => congrArg f (L.heap h)

theorem viewWellKnown : Agree R (Run.view (·.wellKnown)) (Run.view (·.wellKnown)) :=
  .view L.wellKnown

theorem changeGet {o : ObjectId} {f : Object κ → Except Fault (α × Object κ)}
    (hf : ∀ {h : Heap κ} {a object}, f (h.get o) = .ok (a, object) → S h (h.set o object)) :
    Agree R (Run.changeGet o f) (Run.changeGet o f) := by
  intro v w h
  simp only [Run.changeGet, ← L.heap h]
  split
  · exact .value (L.step h (hf ‹_›))
  · exact .fault h

/-- A change of an object in two related worlds, which stay related by it. -/
theorem changeAt {v : World κ σ} {w : World κ τ} (h : R v w) {o : ObjectId}
    {f : Object κ → Except Fault (Object κ)}
    (hf : ∀ {object}, f (v.heap.get o) = .ok object →
      R { v with heap := v.heap.set o object } { w with heap := v.heap.set o object }) :
    (Run.change o f v).Agree R (Run.change o f w) := by
  simp only [Run.change, ← L.heap h]
  split
  · exact .value (hf ‹_›)
  · exact .fault h

theorem change {o : ObjectId} {f : Object κ → Except Fault (Object κ)}
    (hf : ∀ {h : Heap κ} {object}, f (h.get o) = .ok object → S h (h.set o object)) :
    Agree R (Run.change o f) (Run.change o f) :=
  fun _ _ h => L.changeAt h fun ho => L.step h (hf ho)

/-- The definitions that the library makes by itself are discreet. -/
theorem defineDiscreet {o : ObjectId} {k : Key} {d : Descriptor} (hd : d.Discreet) :
    Agree R (Run.change o (·.define k d)) (Run.change o (·.define k d)) :=
  L.change (L.includes.define hd)

theorem deleteOwn {o : ObjectId} {k : Key} :
    Agree R (Run.change o (·.delete k)) (Run.change o (·.delete k)) :=
  L.change L.includes.delete

theorem setPrototype (o : ObjectId) (prototype : Option ObjectId) :
    Agree R (Run.setPrototype o prototype) (Run.setPrototype o prototype) := by
  intro v w h
  simp only [Run.setPrototype, ← L.heap h]
  split
  · exact .fault h
  · exact .value (L.step h (L.includes.setPrototype (Bool.eq_false_iff.2 ‹_›)))

/-- An object is made in two related worlds, which stay related by it. -/
theorem allocateAt {v : World κ σ} {w : World κ τ} (h : R v w) {object : Object κ}
    (hs : S v.heap (v.heap.allocate object).2) :
    (Run.allocate object v).Agree R (Run.allocate object w) := by
  have := L.step h hs
  simp only [Run.allocate, Run.modifyGet, ← L.heap h]
  exact .value this

theorem make {object : Object κ} (ho : object.PlainlyMade) :
    Agree R (Run.allocate object) (Run.allocate object) :=
  fun _ _ h => L.allocateAt h (L.includes.make ho)

theorem reify (f : Fault) : Agree R (Run.reify f) (Run.reify f) := by
  refine (L.make (.withTable .ordinary (by nofun) _ (by simp) ?_)).map _
  simp [Property.hidden, Slot.functions]

/-! ## New objects -/

theorem ordinary (prototype : Option ObjectId) :
    Agree R (Allocation.ordinary prototype) (Allocation.ordinary prototype) :=
  L.make (.make .ordinary _)

theorem constructor (name : String) (code : κ) :
    Agree R (Allocation.constructor name code) (Allocation.constructor name code) := by
  refine (L.ordinary none).bind fun prototype => ?_
  refine (L.make (.withTable .client (by nofun) _ (by simp [Key.prototype]) ?_)).bind fun f => ?_
  · simp [Slot.functions]
  · exact (L.defineDiscreet (.hidden _)).bind fun _ => .pure f

theorem array (elements : List Value) (prototype : Option ObjectId) :
    Agree R (Allocation.array elements prototype) (Allocation.array elements prototype) :=
  L.make (.make (.array (.ofList _)) _)

end PlainLockstep

theorem Lockstep.drawName (L : Lockstep S R) (f : NameSource → α × NameSource) :
    Agree R (Run.drawName f) (Run.drawName f) := by
  refine .modifyGet fun {v w} h => ?_
  rw [L.names h]
  exact ⟨rfl, L.draw _ h⟩

end Prototypal
