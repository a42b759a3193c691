import Prototypal.Proofs.Creation.Success

/-!
# Creations that fail

A creation is not undone when it fails: the back reference of the members stays, and so does what
the constructor inherits from.  Nothing else is left behind.
-/

namespace Prototypal

variable {κ σ : Type}

namespace Class

variable {exec : Exec κ σ} {constructor members : ObjectId} {parent : Value} {w w' : World κ σ}

/-! ## The parent -/

/-- The `prototype` of the parent is read without a change of any object, if it is read at all: if
there is one, and the constructor may inherit from the parent. -/
def ParentQuiet (exec : Exec κ σ) (constructor : ObjectId) (parent : Value) (w : World κ σ) :
    Prop :=
  ∀ p, parent = .object p → w.heap.has p .prototype = true →
    w.heap.closesCircle constructor (some p) = false →
    let v := relinked constructor (some p) w
    (Member.get exec p .prototype parent).Ends v fun _ w' =>
      v.heap.Leaves (v.heap.contains · = true) w'.heap

/-- A property that is no accessor is read quietly. -/
theorem ParentPlain.quiet (plain : ParentPlain w.heap parent) (exec : Exec κ σ)
    (constructor : ObjectId) : ParentQuiet exec constructor parent w := by
  rintro p rfl has circle
  dsimp only
  rw [Run.Ends, Member.get_of_plain fun q hq =>
    plain p q rfl ((find_relinked has circle).symm.trans hq)]
  exact .refl ..

/-- What a constructor inherits from when the parent of its class has been consulted: the parent, if
that has a `prototype` and no circle is closed. -/
def linkAfter (h : Heap κ) (constructor : ObjectId) (parent : Option ObjectId) : Option ObjectId :=
  (parent.filter fun p => h.has p .prototype && !h.closesCircle constructor (some p)).or
    (h.get constructor).prototype

theorem linkAfter_linked (c : ObjectId) (p : Option ObjectId) :
    linkAfter (linked constructor members w).heap c p = linkAfter w.heap c p := by
  have found (q : ObjectId) : (linked constructor members w).heap.has q .prototype =
      w.heap.has q .prototype := congrArg Option.isSome (find_linked q)
  have circle (q : Option ObjectId) : (linked constructor members w).heap.closesCircle c q =
      w.heap.closesCircle c q := Heap.closesCircle_set_put ..
  simp only [linkAfter, prototype_linked, found, circle]

theorem contains_relinked (o : ObjectId) (link : Option ObjectId) (p : ObjectId) :
    (relinked o link w).heap.contains p = w.heap.contains p :=
  Heap.contains_set ..

theorem passedOn_leaves {p : ObjectId}
    (read : (Member.get exec p .prototype (.object p)).Ends w fun _ w' =>
      w.heap.Leaves (w.heap.contains · = true) w'.heap) :
    (passedOn exec p).Ends w fun _ w' => w.heap.Leaves (w.heap.contains · = true) w'.heap := by
  refine .bind read (fun {v w'} left => ?_) id
  cases v <;> exact left

/-- However the parent is consulted, the constructor inherits from it or as before, and no other
object changes. -/
theorem inheritFrom_leaves (quiet : ParentQuiet exec constructor parent w)
    (allowed : parent = .null ∨ ∃ p, parent = .object p) :
    (inheritFrom exec constructor parent.object?).Ends w fun _ w' =>
      (relinked constructor (linkAfter w.heap constructor parent.object?) w).heap.Leaves
        (w.heap.contains · = true) w'.heap := by
  have unlinked : (relinked constructor (w.heap.get constructor).prototype w).heap.Leaves
      (w.heap.contains · = true) w.heap := by
    rw [relinked_self]
    exact .refl ..
  rcases allowed with rfl | ⟨o, rfl⟩
  · exact unlinked
  · change Run.Ends (inheritFrom exec constructor (some o)) w fun _ w' =>
      (relinked constructor (linkAfter w.heap constructor (some o)) w).heap.Leaves
        (w.heap.contains · = true) w'.heap
    rw [Run.Ends]
    cases has : w.heap.has o .prototype with
    | false =>
        rw [inheritFrom_of_not_has has]
        rwa [linkAfter, Option.filter_some_neg (by simp [has]), Option.none_or]
    | true =>
        cases circle : w.heap.closesCircle constructor (some o) with
        | true =>
            rw [inheritFrom_of_closesCircle has circle]
            rwa [linkAfter, Option.filter_some_neg (by simp [circle]), Option.none_or]
        | false =>
            rw [inheritFrom_of_has has circle, relinked_of_has has]
            have link : linkAfter w.heap constructor (some o) = some o := by
              simp [linkAfter, has, circle]
            have passed := passedOn_leaves (quiet o rfl has circle)
            rw [funext (contains_relinked constructor (some o))] at passed
            rwa [link]

/-! ## What remains -/

/-- A creation gets to the parent: that is an object or `null`, and the members take the back
reference. -/
def Begins (h : Heap κ) (constructor members : ObjectId) (parent : Value) : Prop :=
  (parent = .null ∨ ∃ p, parent = .object p) ∧
    ∃ object, (h.get members).define .constructor (.onlyValue (.object constructor)) = .ok object

/-- What a creation that failed leaves behind, compared with what was there before. -/
structure Remains (constructor members : ObjectId) (parent : Value) (w w' : World κ σ) : Prop where
  /-- The members keep the back reference, and nothing else of them changed. -/
  back : (w'.heap.get members).getOwn .constructor =
    some (backReference w.heap constructor members)
  membersSame : (w.heap.get members).SameBut .constructor (w'.heap.get members)
  membersPrototype : members ≠ constructor →
    (w'.heap.get members).prototype = (w.heap.get members).prototype
  /-- The constructor inherits from the parent if that was consulted, and nothing else of it
  changed. -/
  link : (w'.heap.get constructor).prototype = linkAfter w.heap constructor parent.object?
  constructorSame : constructor ≠ members → w'.heap.get constructor =
    { w.heap.get constructor with prototype := (w'.heap.get constructor).prototype }
  others : w.heap.Leaves
    (fun o => w.heap.contains o = true ∧ o ≠ members ∧ o ≠ constructor) w'.heap

/-- A creation that began and failed leaves the objects as they are when the parent has been
consulted. -/
theorem create_leaves {f : Fault} (hw : w.heap.LaidOut)
    (quiet : ParentQuiet exec constructor parent (linked constructor members w))
    (begun : Begins w.heap constructor members parent)
    (h : create exec constructor members parent w = .fault f w') :
    (consulted constructor members (linkAfter w.heap constructor parent.object?) w).heap.Leaves
      (w.heap.contains · = true) w'.heap := by
  obtain ⟨allowed, object, defined⟩ := begun
  rw [create_of_allowed allowed] at h
  rcases Run.bind_eq_fault h with link | ⟨_, w₁, link, h⟩
  · rw [(Run.change_eq_fault link).1] at defined
    cases defined
  obtain ⟨held, rfl⟩ := link_eq_value link
  have inherit := inheritFrom_leaves quiet allowed
  rw [linkAfter_linked, funext contains_linked] at inherit
  rcases Run.bind_eq_fault h with failed | ⟨above, w₂, inherited, h⟩
  · exact inherit.of_fault failed
  have left : (consulted constructor members (linkAfter w.heap constructor parent.object?)
      w).heap.Leaves (w.heap.contains · = true) w₂.heap := inherit.of_value inherited
  have contains₂ {o : ObjectId} (ho : w.heap.contains o = true) : w₂.heap.contains o = true :=
    left.contains ((contains_consulted _ o).trans ho)
  have laidOut : (w₂.heap.get members).LaidOut := left.get held ▸ laidOut_consulted hw _ members
  -- The copy is made without fail, so what fails is the last definition.
  rcases Run.bind_eq_fault h with failed | ⟨prototype, w₃, copied, h⟩
  · rw [copyOnto_eq_allocate (contains₂ held) laidOut.nodup_ownKeys] at failed
    cases failed
  rw [copyOnto_eq_allocate (contains₂ held) laidOut.nodup_ownKeys] at copied
  cases copied
  rcases Run.bind_eq_fault h with failed | ⟨_, w₄, closed, h⟩
  · cases (Run.change_eq_fault failed).2
    exact left.trans ((Heap.Leaves.allocate ..).mono fun _ => contains₂)
  · cases h

theorem Remains.of_leaves (hc : w.heap.contains constructor = true)
    (hm : w.heap.contains members = true)
    (left : (consulted constructor members (linkAfter w.heap constructor parent.object?)
      w).heap.Leaves (w.heap.contains · = true) w'.heap) :
    Remains constructor members parent w w' := by
  have owner := (left.get hc).trans (get_consulted_constructor hc _)
  have other {o : ObjectId} (ho : w.heap.contains o = true) (hne : o ≠ constructor) :
      w'.heap.get o = (linked constructor members w).heap.get o :=
    (left.get ho).trans (get_consulted_of_ne hne _)
  -- The members are the members that took the back reference, up to what they inherit from.
  obtain ⟨link, member⟩ : ∃ link, w'.heap.get members =
      { (w.heap.get members).put .constructor (backReference w.heap constructor members) with
        prototype := link } := by
    rw [← get_linked_members hm]
    by_cases same : members = constructor
    · subst same
      exact ⟨_, owner⟩
    · exact ⟨_, other hm same⟩
  exact {
    back := by
      rw [member]
      exact Object.getOwn_put_self (o := w.heap.get members) (Object.place_constructor _) _
    membersSame := by
      rw [member]
      exact (Object.sameBut_put (Object.place_constructor _) _).withPrototype link
    membersPrototype := fun same => by
      rw [other hm same, prototype_linked]
    link := by rw [owner]
    constructorSame := fun apart => by
      rw [owner, get_linked_of_ne apart]
    others := ((leaves_consulted _).mono fun _ ho => ho.2).trans (left.mono fun _ ho => ho.1) }

end Class

open Prototypal.Class in
/-- What a failed creation leaves behind, if no getter changes an object.  If the parent is neither
an object nor `null`, or the members do not take the back reference, nothing changes.  After that
the back reference stays, and the constructor inherits from a parent with a `prototype` if that
closes no circle, whatever it is that fails then. -/
theorem perform_createClass_remains {exec : Exec κ σ} {constructor members : ObjectId}
    {parent : Value} {f : Fault} {w w' : World κ σ} (n : Nat) (hw : w.Reached)
    (hc : w.heap.contains constructor = true)
    (quiet : ParentQuiet exec constructor parent (linked constructor members w))
    (h : perform exec n (.createClass constructor members parent) w = .fault f w') :
    (Begins w.heap constructor members parent → Remains constructor members parent w w') ∧
      (¬ Begins w.heap constructor members parent → w' = w) := by
  refine ⟨fun begun => ?_, fun unbegun => ?_⟩
  · have left := create_leaves hw.laidOut quiet begun h
    obtain ⟨-, object, defined⟩ := begun
    exact .of_leaves hc (Heap.contains_of_define defined) left
  · change create exec constructor members parent w = _ at h
    by_cases allowed : parent = .null ∨ ∃ p, parent = .object p
    · rw [create_of_allowed allowed] at h
      rcases Run.bind_eq_fault h with link | ⟨_, w₁, link, -⟩
      · exact (Run.change_eq_fault link).2
      · obtain ⟨object, defined, -⟩ := Run.change_eq_value link
        exact absurd ⟨allowed, object, defined⟩ unbegun
    · rw [create_of_not_allowed allowed] at h
      cases h
      rfl

/-- Makes a constructor, its members, and a parent whose `prototype` is no object. -/
private def misled : Program Unit Unit :=
  .ask (.newFunction "C" ()) fun _ => .ask (.newObject none) fun _ =>
  .ask (.newObject none) fun _ => .ask (.define ⟨2⟩ .prototype (.data (.boolean true))) fun _ =>
  .ask .newKey fun _ => .done (.ok .null)

open Prototypal.Class in
/-- The parent has a `prototype` that is not an object. -/
theorem perform_createClass_remains_misled :
    let run : Request Unit ObjectId → Run Unit Unit ObjectId :=
      perform (fun _ _ => Run.exhausted) 0
    ∃ w w' : World Unit Unit, w.Reached ∧ w.heap.contains ⟨0⟩ = true ∧
      ParentPlain w.heap (.object ⟨2⟩) ∧
      run (.createClass ⟨0⟩ ⟨1⟩ (.object ⟨2⟩)) w = .fault .invalidParentPrototype w' ∧
      Begins w.heap ⟨0⟩ ⟨1⟩ (.object ⟨2⟩) ∧ Remains ⟨0⟩ ⟨1⟩ (.object ⟨2⟩) w w' := by
  intro run
  obtain ⟨w, reached, facts⟩ := World.exists_reached
    (fun _ _ => misled) 0 misled (.initial id) ()
    (fun w => (w.heap.contains ⟨0⟩, (w.heap.find ⟨2⟩ .prototype).all (!·.isAccessor),
      (run (.createClass ⟨0⟩ ⟨1⟩ (.object ⟨2⟩)) w).fault?,
      ((w.heap.get ⟨1⟩).define .constructor (.onlyValue (.object ⟨0⟩))).isOk))
    (show _ = some (true, true, some .invalidParentPrototype, true) by decide +kernel)
  simp only [Prod.mk.injEq] at facts
  obtain ⟨held, plain, result, taken⟩ := facts
  obtain ⟨w', failed⟩ := Outcome.exists_fault result
  have plain := parentPlain_object plain
  have begun : Begins w.heap ⟨0⟩ ⟨1⟩ (.object ⟨2⟩) := by
    refine ⟨.inr ⟨_, rfl⟩, ?_⟩
    cases defined : (w.heap.get ⟨1⟩).define .constructor (.onlyValue (.object ⟨0⟩)) with
    | ok object => exact ⟨object, rfl⟩
    | error f =>
        rw [defined] at taken
        cases taken
  exact ⟨w, w', reached, held, plain, failed, begun,
    (perform_createClass_remains 0 reached held (plain.linked.quiet _ _) failed).1 begun⟩

open Prototypal.Class in
/-- A creation that fails is not undone. -/
theorem perform_createClass_not_undone :
    let run : Request Unit ObjectId → Run Unit Unit ObjectId :=
      perform (fun _ _ => Run.exhausted) 0
    ∃ w w' : World Unit Unit, w.Reached ∧ ParentPlain w.heap (.object ⟨2⟩) ∧
      run (.createClass ⟨0⟩ ⟨1⟩ (.object ⟨2⟩)) w = .fault .invalidParentPrototype w' ∧
      (w'.heap.get ⟨1⟩).getOwn .constructor ≠ (w.heap.get ⟨1⟩).getOwn .constructor ∧
      (w'.heap.get ⟨0⟩).prototype ≠ (w.heap.get ⟨0⟩).prototype := by
  intro run
  obtain ⟨w, reached, facts⟩ := World.exists_reached
    (fun _ _ => misled) 0 misled (.initial id) ()
    (fun w =>
      let made := run (.createClass ⟨0⟩ ⟨1⟩ (.object ⟨2⟩)) w
      ((w.heap.find ⟨2⟩ .prototype).all (!·.isAccessor), made.fault?,
        made.world?.all fun w' =>
          (w'.heap.get ⟨1⟩).getOwn .constructor ≠ (w.heap.get ⟨1⟩).getOwn .constructor ∧
            (w'.heap.get ⟨0⟩).prototype ≠ (w.heap.get ⟨0⟩).prototype))
    (show _ = some (true, some .invalidParentPrototype, true) by decide +kernel)
  simp only [Prod.mk.injEq] at facts
  obtain ⟨plain, result, changed⟩ := facts
  obtain ⟨w', failed⟩ := Outcome.exists_fault result
  rw [failed] at changed
  exact ⟨w, w', reached, parentPlain_object plain, failed, of_decide_eq_true changed⟩

end Prototypal
