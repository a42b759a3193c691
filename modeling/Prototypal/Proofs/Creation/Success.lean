import Prototypal.Proofs.Creation.Steps
import Prototypal.Proofs.Reached

/-!
# Classes that were made

What a successful creation leaves: the constructor with its prototype, the members with their
constructor, and everything else as it was.
-/

namespace Prototypal

variable {κ σ : Type}

namespace Class

variable {exec : Exec κ σ} {constructor members : ObjectId} {parent : Value} {w w' : World κ σ}

/-! ## The members -/

/-- The `constructor` of the members of a class: it takes over the attributes of the one that was
there before. -/
def backReference (h : Heap κ) (constructor members : ObjectId) : Property :=
  .withValue ((h.get members).getOwn .constructor) (.object constructor)

/-- The world after the members got their constructor. -/
def linked (constructor members : ObjectId) (w : World κ σ) : World κ σ :=
  { w with
    heap := w.heap.set members
      ((w.heap.get members).put .constructor (backReference w.heap constructor members)) }

theorem link_eq_value
    (h : Run.change members (·.define .constructor (.onlyValue (.object constructor))) w =
      .value () w') : w.heap.contains members = true ∧ w' = linked constructor members w :=
  Run.define_onlyValue_of_entry (Object.place_constructor _) h

theorem get_linked_members (hm : w.heap.contains members = true) :
    (linked constructor members w).heap.get members =
      (w.heap.get members).put .constructor (backReference w.heap constructor members) :=
  Heap.get_set_self _ hm

theorem get_linked_of_ne {o : ObjectId} (ho : o ≠ members) :
    (linked constructor members w).heap.get o = w.heap.get o :=
  Heap.get_set_of_ne _ _ ho

theorem contains_linked (o : ObjectId) :
    (linked constructor members w).heap.contains o = w.heap.contains o :=
  Heap.contains_set ..

theorem prototype_linked (constructor members o : ObjectId) :
    ((linked constructor members w).heap.get o).prototype = (w.heap.get o).prototype :=
  Heap.get_set_congr (·.prototype) ((w.heap.get members).put ..) rfl o

theorem find_linked (p : ObjectId) :
    (linked constructor members w).heap.find p .prototype = w.heap.find p .prototype :=
  Heap.find_set_put _ _ _ (by decide) p

theorem laidOut_linked (hw : w.heap.LaidOut) : (linked constructor members w).heap.LaidOut :=
  hw.set ((hw members).put (Object.place_constructor _) _)

/-! ## Ancestry -/

/-- What the prototype of a class inherits from, and what its constructor does, by the parent of the
class.  `own` is what the constructor inherits from by itself. -/
inductive Ancestry (h : Heap κ) (own : Option ObjectId) :
    Value → Option ObjectId → Option ObjectId → Prop where
  | root : Ancestry h own .null none own
  /-- The parent has no `prototype`. -/
  | bare {p : ObjectId} (absent : h.has p .prototype = false) :
      Ancestry h own (.object p) (some p) own
  | orphan {p : ObjectId} {q : Property} (found : h.find p .prototype = some q)
      (value : q.value? = some .null) : Ancestry h own (.object p) none (some p)
  | heir {p above : ObjectId} {q : Property} (found : h.find p .prototype = some q)
      (value : q.value? = some (.object above)) :
      Ancestry h own (.object p) (some above) (some p)

theorem Ancestry.congr {h h' : Heap κ} {own above link : Option ObjectId}
    (same : ∀ p, h'.find p .prototype = h.find p .prototype)
    (a : Ancestry h own parent above link) : Ancestry h' own parent above link := by
  cases a with
  | root => exact .root
  | bare absent => exact .bare (by rwa [Heap.has, same])
  | orphan found value => exact .orphan ((same _).trans found) value
  | heir found value => exact .heir ((same _).trans found) value

/-- No accessor is found when the `prototype` of the parent is looked up. -/
def ParentPlain (h : Heap κ) (parent : Value) : Prop :=
  ∀ p q, parent = .object p → h.find p .prototype = some q → q.isAccessor = false

theorem ParentPlain.linked (plain : ParentPlain w.heap parent) :
    ParentPlain (linked constructor members w).heap parent :=
  fun p q hp hq => plain p q hp ((find_linked p).symm.trans hq)

theorem parentPlain_object {h : Heap κ} {p : ObjectId}
    (plain : (h.find p .prototype).all (!·.isAccessor) = true) : ParentPlain h (.object p) := by
  rintro _ q ⟨⟩ found
  rw [found] at plain
  simpa using plain

/-- The world after an object got another prototype. -/
def relinked (o : ObjectId) (link : Option ObjectId) (w : World κ σ) : World κ σ :=
  { w with heap := w.heap.set o { w.heap.get o with prototype := link } }

theorem relinked_self (o : ObjectId) : relinked o (w.heap.get o).prototype w = w := by
  unfold relinked
  rw [show ({ w.heap.get o with prototype := (w.heap.get o).prototype } : Object κ) = w.heap.get o
    from rfl, Heap.set_get]

theorem relinked_of_has {o p : ObjectId} (hp : w.heap.has p .prototype = true) :
    { w with heap := w.heap.setPrototype o (some p) } = relinked o (some p) w := by
  unfold relinked
  rw [Heap.setPrototype, Option.filter_some_pos (Heap.contains_of_has hp)]

/-- A parent that closes no circle is looked up as before. -/
theorem find_relinked {o p : ObjectId} (hp : w.heap.has p .prototype = true)
    (hc : w.heap.closesCircle o (some p) = false) :
    (relinked o (some p) w).heap.find p .prototype = w.heap.find p .prototype := by
  rw [← relinked_of_has hp]
  exact Heap.find_setPrototype hc (some p) .prototype

/-- The world when the members have their constructor and the parent has been consulted. -/
def consulted (constructor members : ObjectId) (link : Option ObjectId) (w : World κ σ) :
    World κ σ :=
  relinked constructor link (linked constructor members w)

theorem contains_consulted (link : Option ObjectId) (o : ObjectId) :
    (consulted constructor members link w).heap.contains o = w.heap.contains o :=
  (Heap.contains_set ..).trans (contains_linked o)

theorem next_consulted (link : Option ObjectId) :
    (consulted constructor members link w).heap.next = w.heap.next := by
  simp [consulted, relinked, linked, Heap.next]

theorem get_consulted_constructor (hc : w.heap.contains constructor = true)
    (link : Option ObjectId) :
    (consulted constructor members link w).heap.get constructor =
      { (linked constructor members w).heap.get constructor with prototype := link } :=
  Heap.get_set_self _ ((contains_linked constructor).trans hc)

theorem get_consulted_of_ne {o : ObjectId} (ho : o ≠ constructor) (link : Option ObjectId) :
    (consulted constructor members link w).heap.get o =
      (linked constructor members w).heap.get o :=
  Heap.get_set_of_ne _ _ ho

theorem laidOut_consulted (hw : w.heap.LaidOut) (link : Option ObjectId) :
    (consulted constructor members link w).heap.LaidOut :=
  (laidOut_linked hw).set ⟨(laidOut_linked hw _).entries, (laidOut_linked hw _).fits⟩

theorem leaves_consulted (link : Option ObjectId) :
    w.heap.Leaves (fun o => o ≠ members ∧ o ≠ constructor)
      (consulted constructor members link w).heap :=
  ((Heap.Leaves.set ..).mono fun _ ho => ho.1).trans ((Heap.Leaves.set ..).mono fun _ ho => ho.2)

/-- Nothing but the prototype of the constructor changes when the parent is consulted. -/
theorem inheritFrom_eq_value {above : Option ObjectId} (plain : ParentPlain w.heap parent)
    (allowed : parent = .null ∨ ∃ p, parent = .object p)
    (h : inheritFrom exec constructor parent.object? w = .value above w') :
    ∃ link, Ancestry w.heap (w.heap.get constructor).prototype parent above link ∧
      w' = relinked constructor link w := by
  rcases allowed with rfl | ⟨p, rfl⟩
  · cases h
    exact ⟨_, .root, (relinked_self _).symm⟩
  · change inheritFrom exec constructor (some p) w = _ at h
    cases has : w.heap.has p .prototype with
    | false =>
        rw [inheritFrom_of_not_has has] at h
        cases h
        exact ⟨_, .bare has, (relinked_self _).symm⟩
    | true =>
        cases circle : w.heap.closesCircle constructor (some p) with
        | true =>
            rw [inheritFrom_of_closesCircle has circle] at h
            cases h
        | false =>
            obtain ⟨q, found⟩ := Option.isSome_iff_exists.1 has
            obtain ⟨v, value⟩ := Property.exists_value (plain p q rfl found)
            rw [inheritFrom_of_has has circle, relinked_of_has has,
              passedOn_of_value ((find_relinked has circle).trans found) value] at h
            cases v with
            | null =>
                cases h
                exact ⟨_, .orphan found value, rfl⟩
            | object above =>
                cases h
                exact ⟨_, .heir found value, rfl⟩
            | _ => cases h

/-! ## The class -/

/-- A class, made of a constructor, its members and a parent: what is there afterwards, compared
with what was there before.  A reference to no object counts as none. -/
structure Constructed (constructor members : ObjectId) (parent : Value) (prototype : ObjectId)
    (w w' : World κ σ) : Prop where
  /-- The prototype is a new object. -/
  fresh : w.heap.contains prototype = false
  made : w'.heap.contains prototype = true
  ordinary : (w'.heap.get prototype).kind = .ordinary
  extensible : (w'.heap.get prototype).extensible = true
  /-- It has copies of the members, in the same order. -/
  keys : (w'.heap.get prototype).ownKeys = (w'.heap.get members).ownKeys
  copies (k : Key) : (w'.heap.get prototype).getOwn k = (w'.heap.get members).getOwn k
  owner : ((w'.heap.get constructor).getOwn .prototype).bind Property.value? =
    some (.object prototype)
  back : ((w'.heap.get members).getOwn .constructor).bind Property.value? =
    some (.object constructor)
  ancestry : ∃ above, (w'.heap.get prototype).prototype = above.filter w.heap.contains ∧
    Ancestry w.heap (w.heap.get constructor).prototype parent above
      (w'.heap.get constructor).prototype
  membersSame : (w.heap.get members).SameBut .constructor (w'.heap.get members)
  membersPrototype : (w'.heap.get members).prototype = (w.heap.get members).prototype
  constructorSame : (w.heap.get constructor).SameBut .prototype (w'.heap.get constructor)
  others : w.heap.Leaves
    (fun o => w.heap.contains o = true ∧ o ≠ members ∧ o ≠ constructor) w'.heap
  /-- Only the heap changes. -/
  rest : w' = { w with heap := w'.heap }

/-- The copy of the members and its place in the constructor make the class. -/
theorem Constructed.of_completed {prototype : ObjectId} {above link : Option ObjectId}
    (hw : w.heap.LaidOut) (hc : w.heap.contains constructor = true)
    (held : w.heap.contains members = true) (hm : members ≠ constructor)
    (ancestry : Ancestry w.heap (w.heap.get constructor).prototype parent above link)
    (done : Completed constructor members above prototype (consulted constructor members link w)
      w') : Constructed constructor members parent prototype w w' := by
  have fresh := done.next.trans (next_consulted link)
  have source : (consulted constructor members link w).heap.get members =
      (w.heap.get members).put .constructor (backReference w.heap constructor members) :=
    (get_consulted_of_ne hm link).trans (get_linked_members held)
  have laidOut : ((w.heap.get members).put .constructor
      (backReference w.heap constructor members)).LaidOut :=
    (hw members).put (Object.place_constructor _) _
  have member := (done.others.get ⟨(contains_consulted link members).trans held, hm⟩).trans source
  have owner := done.owner
  rw [get_consulted_constructor hc, get_linked_of_ne (Ne.symm hm)] at owner
  have copied := done.copied
  rw [source, funext (contains_consulted link)] at copied
  have same := Object.sameBut_put (o := { w.heap.get constructor with prototype := link })
    (Object.place_prototype _)
    (.withValue (({ w.heap.get constructor with prototype := link } : Object κ).getOwn .prototype)
      (.object prototype))
  exact {
    fresh := by
      rw [fresh]
      exact Bool.eq_false_iff.2 fun contained => Nat.lt_irrefl _ (Heap.contains_iff.1 contained)
    made := done.made
    ordinary := by rw [copied]; rfl
    extensible := by rw [copied]; rfl
    keys := by rw [copied, member, ownKeys_copy laidOut]
    copies := fun k => by rw [copied, member, getOwn_copy_of_laidOut laidOut]
    owner := by
      rw [owner, Object.getOwn_put_self (Object.place_prototype _)]
      exact Property.value?_withValue ..
    back := by
      rw [member, Object.getOwn_put_self (Object.place_constructor _)]
      exact Property.value?_withValue ..
    ancestry := ⟨above, by rw [copied]; rfl, by rw [owner]; exact ancestry⟩
    membersSame := member ▸ Object.sameBut_put (Object.place_constructor _) _
    membersPrototype := by rw [member]; rfl
    constructorSame := owner ▸ ⟨same.kind, same.extensible, same.others, same.keys⟩
    others := ((leaves_consulted link).mono fun _ ho => ho.2).trans
      (done.others.mono fun o ho => ⟨(contains_consulted link o).trans ho.1, ho.2.2⟩)
    rest := done.rest }

end Class

open Prototypal.Class in
/-- What a successful creation builds.  The constructor is given back; its `prototype` is a new
ordinary object with copies of all members; the members differ from before in their `constructor`
only; the parent decides what is inherited; and no other object changes. -/
theorem perform_createClass_constructs {exec : Exec κ σ} {constructor members c : ObjectId}
    {parent : Value} {w w' : World κ σ} (n : Nat) (hw : w.Reached)
    (hc : w.heap.contains constructor = true) (hm : members ≠ constructor)
    (plain : ParentPlain w.heap parent)
    (h : perform exec n (.createClass constructor members parent) w = .value c w') :
    c = constructor ∧ Constructed constructor members parent w.heap.next w w' := by
  obtain ⟨rfl, above, prototype, w₁, w₂, w₃, steps⟩ := create_eq_value h
  obtain ⟨held, rfl⟩ := link_eq_value steps.link
  obtain ⟨link, ancestry, rfl⟩ := inheritFrom_eq_value plain.linked steps.allowed steps.inherit
  have held₂ : (consulted c members link w).heap.contains members = true :=
    (contains_consulted link members).trans held
  have done := completed_of_copy ((contains_consulted link c).trans hc) held₂
    (laidOut_consulted hw.laidOut link members) steps.copy steps.close
  obtain rfl := done.next.trans (next_consulted link)
  rw [prototype_linked] at ancestry
  exact ⟨rfl, .of_completed hw.laidOut hc held hm
    (ancestry.congr fun p => (find_linked p).symm) done⟩

open Prototypal.Class in
/-- An array becomes the members of a class that inherits from another one. -/
theorem perform_createClass_constructs_heir :
    let run : Request Unit ObjectId → Run Unit Unit ObjectId :=
      perform (fun _ _ => Run.exhausted) 0
    ∃ w w' : World Unit Unit, w.Reached ∧ w.heap.contains ⟨2⟩ = true ∧
      ParentPlain w.heap (.object ⟨1⟩) ∧
      run (.createClass ⟨2⟩ ⟨3⟩ (.object ⟨1⟩)) w = .value ⟨2⟩ w' ∧
      Constructed ⟨2⟩ ⟨3⟩ (.object ⟨1⟩) w.heap.next w w' := by
  intro run
  obtain ⟨w, reached, facts⟩ := World.exists_reached
    (fun _ _ => .done (.ok .null)) 0
    (.ask (.newConstructor "A" ()) fun _ => .ask (.newFunction "B" ()) fun _ =>
      .ask (.newArray [.null] none) fun _ => .ask .newKey fun _ => .done (.ok .null))
    (.initial id) ()
    (fun w => (w.heap.contains ⟨2⟩, (w.heap.find ⟨1⟩ .prototype).all (!·.isAccessor),
      (run (.createClass ⟨2⟩ ⟨3⟩ (.object ⟨1⟩)) w).value?))
    (show _ = some (true, true, some ⟨2⟩) by decide +kernel)
  simp only [Prod.mk.injEq] at facts
  obtain ⟨held, plain, result⟩ := facts
  obtain ⟨w', made⟩ := Outcome.exists_value result
  have plain := parentPlain_object plain
  exact ⟨w, w', reached, held, plain, made,
    (perform_createClass_constructs 0 reached held (by decide) plain made).2⟩

end Prototypal
