import Prototypal.Proofs.Creation.Success
import Prototypal.Proofs.FixedAccessor

/-!
# The back reference of a class

The members of a class and its prototype refer back to the constructor.  The definition names only
the value, so the attributes are those that `constructor` had on the members before.
-/

namespace Prototypal

variable {κ σ : Type}

/-! ## Attributes -/

namespace Property

/-- A value that was stored by itself cannot be seen or changed if and only if what was there
before, if anything, could not be seen, changed or removed. -/
theorem withValue_eq_fixedData_iff {old : Option Property} {v : Value} :
    withValue old v = .fixedData v false false ↔
      ∀ p, old = some p → p.enumerable = false ∧ p.configurable = false ∧
        ∀ u, p.slot ≠ .data u true := by
  match old with
  | none => exact iff_of_true rfl nofun
  | some ⟨.data u writable, enumerable, configurable⟩ =>
      simp [withValue, merged, Descriptor.onlyValue, Slot.formed, Slot.updated, fixedData,
        Slot.isAccessor, Descriptor.isAccessor]
      grind
  | some ⟨.accessor getter setter, enumerable, configurable⟩ =>
      simp [withValue, merged, Descriptor.onlyValue, Slot.formed, Slot.updated, fixedData,
        Slot.isAccessor, Descriptor.isAccessor, Descriptor.isData]

end Property

/-! ## The back reference along a creation -/

theorem Heap.Step.contains {Defines : ObjectId → Key → Descriptor → Prop} {h h' : Heap κ}
    {o : ObjectId} (ho : h.contains o = true) (s : Step Defines h h') : h'.contains o = true := by
  cases s with
  | allocate => exact contains_allocate _ ho
  | _ => exact (contains_set ..).trans ho

namespace Class

/-- Consulting the parent keeps what every step of the heap keeps, even if a getter runs. -/
theorem inheritFrom_keeps {Q : Heap κ → Prop}
    (step : ∀ {h h' : Heap κ}, Q h → Heap.Step (fun _ _ _ => True) h h' → Q h')
    (client : Client κ σ) (n : Nat) (constructor : ObjectId) (parent : Option ObjectId) :
    Run.Keeps (Q ·.heap) (inheritFrom (execute client n) constructor parent) := by
  have L : FullLockstep (Heap.Step fun _ _ _ => True)
      (Run.Both fun w : World κ σ => Q w.heap) := .ofHeap (Heap.Step.covers fun _ => trivial) step
  have bodies : Lockstep.ExecAgree (Run.Both fun w : World κ σ => Q w.heap)
      (execute client n) (execute client n) :=
    L.execute (fun h => by rw [h.1]) (fun _ h => ⟨by rw [h.1], h.2⟩)
      (fun code invocation => (client code invocation).all_true.mono fun _ =>
        Request.within_step (fun _ => trivial) fun _ _ _ _ => trivial) n
  exact Run.keeps_iff_agree.2 (L.inheritFrom bodies constructor parent)

/-- The back reference outlasts the look at the parent if that runs no getter, or if it is fixed. -/
theorem backReference_lasts {client : Client κ σ} {constructor members : ObjectId} {parent : Value}
    {above : Option ObjectId} {w w' : World κ σ} {n : Nat}
    (held : w.heap.contains members = true) (allowed : parent = .null ∨ ∃ p, parent = .object p)
    (lasting : ParentPlain w.heap parent ∨ backReference w.heap constructor members =
      .fixedData (.object constructor) false (backReference w.heap constructor members).enumerable)
    (h : inheritFrom (execute client n) constructor parent.object? (linked constructor members w) =
      .value above w') :
    (w'.heap.get members).getOwn .constructor =
      some (backReference w.heap constructor members) := by
  have start : ((linked constructor members w).heap.get members).HasEntry .constructor
      (backReference w.heap constructor members) := by
    rw [get_linked_members held]
    exact ⟨Object.place_constructor _, Table.find?_put_self ..⟩
  rcases lasting with plain | fixed
  · obtain ⟨link, -, rfl⟩ := inheritFrom_eq_value plain.linked allowed h
    refine (Heap.get_set_congr (·.getOwn .constructor) { (linked constructor members w).heap.get
      constructor with prototype := link } rfl members).trans ?_
    exact start.getOwn
  · have step {h h' : Heap κ}
        (hp : (h.get members).HasEntry .constructor (backReference w.heap constructor members))
        (s : Heap.Step (fun _ _ _ => True) h h') :
        (h'.get members).HasEntry .constructor (backReference w.heap constructor members) := by
      rw [fixed] at hp ⊢
      rcases s.hasEntry hp rfl with hp | ⟨d, -, admitted, hp⟩
      · exact hp
      · exact Property.merged_fixedData_of_not_writable admitted ▸ hp
    exact ((inheritFrom_keeps (Q := fun h => (h.get members).HasEntry .constructor _) step client n
      constructor parent.object?).of_value start h).getOwn

/-- The members and the prototype of a class refer back to the constructor by the same property. -/
structure RefersBack (constructor members : ObjectId) (p : Property) (w : World κ σ) : Prop where
  members : (w.heap.get members).getOwn .constructor = some p
  prototype : ∃ prototype : ObjectId,
    ((w.heap.get constructor).getOwn .prototype).bind Property.value? = some (.object prototype) ∧
      (w.heap.get prototype).getOwn .constructor = some p

/-- The copy of members that refer back does, too. -/
theorem RefersBack.of_completed {constructor members prototype : ObjectId} {p : Property}
    {above : Option ObjectId} {w w' : World κ σ} (hm : w.heap.contains members = true)
    (hl : (w.heap.get members).LaidOut)
    (hp : (w.heap.get members).getOwn .constructor = some p)
    (done : Completed constructor members above prototype w w') :
    RefersBack constructor members p w' where
  members := by
    by_cases same : members = constructor
    · subst same
      rw [done.owner, Object.getOwn_put_of_ne _ _ (by decide), hp]
    · rw [done.others.get ⟨hm, same⟩, hp]
  prototype := by
    refine ⟨prototype, ?_, ?_⟩
    · rw [done.owner, Object.getOwn_put_self (Object.place_prototype _)]
      exact Property.value?_withValue ..
    · rw [done.copied, getOwn_copy_of_laidOut hl, hp]

end Class

open Prototypal.Class in
/-- After a successful creation the members and the prototype refer back to the constructor, by a
data property that has the attributes which the members' own `constructor` had before.  It is hidden
and fixed if and only if there was none, or one that was hidden and fixed.  A getter of the parent,
which runs after the definition, can only change a back reference that is not fixed. -/
theorem perform_createClass_refersBack {client : Client κ σ} {constructor members c : ObjectId}
    {parent : Value} {w w' : World κ σ} (m n : Nat) (hw : w.Reached)
    (hc : w.heap.contains constructor = true)
    (h : perform (execute client m) n (.createClass constructor members parent) w = .value c w') :
    let old := (w.heap.get members).getOwn .constructor
    let back := backReference w.heap constructor members
    (ParentPlain w.heap parent ∨ back = .fixedData (.object constructor) false back.enumerable →
      RefersBack constructor members back w') ∧
    back.value? = some (.object constructor) ∧
    (back = .fixedData (.object constructor) false false ↔
      ∀ p, old = some p → p.enumerable = false ∧ p.configurable = false ∧
        ∀ u, p.slot ≠ .data u true) := by
  intro old back
  refine ⟨fun lasting => ?_, Property.value?_withValue .., Property.withValue_eq_fixedData_iff⟩
  obtain ⟨rfl, above, prototype, w₁, w₂, w₃, steps⟩ := create_eq_value h
  obtain ⟨held, rfl⟩ := link_eq_value steps.link
  have kept {Q : Heap κ → Prop} (start : Q (linked c members w).heap)
      (step : ∀ {h h' : Heap κ}, Q h → Heap.Step (fun _ _ _ => True) h h' → Q h') : Q w₂.heap :=
    (inheritFrom_keeps step client m c parent.object?).of_value start steps.inherit
  have constructor₂ : w₂.heap.contains c = true :=
    kept ((contains_linked c).trans hc) Heap.Step.contains
  have members₂ : w₂.heap.contains members = true :=
    kept ((contains_linked members).trans held) Heap.Step.contains
  have laidOut : w₂.heap.LaidOut := kept (laidOut_linked hw.laidOut) Heap.LaidOut.step
  exact .of_completed members₂ (laidOut members)
    (backReference_lasts held steps.allowed lasting steps.inherit)
    (completed_of_copy constructor₂ members₂ (laidOut members) steps.copy steps.close)

open Prototypal.Class in
/-- The members had an ordinary `constructor`: the back reference is seen and can be changed. -/
theorem perform_createClass_refersBack_shown :
    let run : Request Unit ObjectId → Run Unit Unit ObjectId :=
      perform (execute (fun _ _ => .done (.ok .null)) 0) 0
    ∃ w w' : World Unit Unit, w.Reached ∧ w.heap.contains ⟨0⟩ = true ∧
      run (.createClass ⟨0⟩ ⟨1⟩ .null) w = .value ⟨0⟩ w' ∧
      RefersBack ⟨0⟩ ⟨1⟩ ⟨.data (.object ⟨0⟩) true, true, true⟩ w' := by
  intro run
  obtain ⟨w, reached, facts⟩ := World.exists_reached
    (fun _ _ => .done (.ok .null)) 0
    (.ask (.newFunction "C" ()) fun _ => .ask (.newObject none) fun _ =>
      .ask (.define ⟨1⟩ .constructor (.data .null)) fun _ =>
      .ask .newKey fun _ => .done (.ok .null))
    (.initial id) ()
    (fun w => (w.heap.contains ⟨0⟩, backReference w.heap ⟨0⟩ ⟨1⟩,
      (run (.createClass ⟨0⟩ ⟨1⟩ .null) w).value?))
    (show _ = some (true, ⟨.data (.object ⟨0⟩) true, true, true⟩, some ⟨0⟩) by decide +kernel)
  simp only [Prod.mk.injEq] at facts
  obtain ⟨held, back, result⟩ := facts
  obtain ⟨w', made⟩ := Outcome.exists_value result
  have refers := (perform_createClass_refersBack 0 0 reached held made).1 (.inl nofun)
  exact ⟨w, w', reached, held, made, back ▸ refers⟩

end Prototypal
