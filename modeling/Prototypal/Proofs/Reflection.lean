import Prototypal.Proofs.Class
import Prototypal.Proofs.Definition
import Prototypal.Proofs.Layout

/-!
# Reflection

The descriptor of a stored property says all that there is to say of it.  So a definition by it
finds nothing to change where the property is, and makes its like where there is none.
-/

namespace Prototypal

variable {κ σ : Type}

/-! ## Properties and objects -/

namespace Property

/-- A property admits its own description, also where nothing may change: a read-only value is the
same as itself, and so is a function that is missing. -/
theorem admits_toDescriptor (p : Property) : p.admits p.toDescriptor = true := by
  obtain ⟨slot, enumerable, configurable⟩ := p
  cases configurable with
  | true => rfl
  | false =>
      match slot with
      | .data value true => simp [admits, toDescriptor, Descriptor.isAccessor, isAccessor,
          Slot.isAccessor, Slot.admits]
      | .data value false => simp [admits, toDescriptor, Descriptor.isAccessor, isAccessor,
          Slot.isAccessor, Slot.admits, Value.same_iff]
      | .accessor getter setter => simp [admits, toDescriptor, Descriptor.isAccessor, isAccessor,
          Slot.isAccessor, Slot.admits, Descriptor.getterObject?, Descriptor.setterObject?]

/-- The description of a property changes nothing of it. -/
theorem merged_toDescriptor (p : Property) : p.merged p.toDescriptor = p := by
  obtain ⟨slot, enumerable, configurable⟩ := p
  match slot with
  | .data value writable => rfl
  | .accessor getter setter => cases getter <;> cases setter <;> rfl

end Property

namespace Object

/-- An element is defined anew by its value, and the length of an array by the number that it is. -/
theorem LaidOut.define_toDescriptor {o : Object κ} {k : Key} {p : Property} (h : o.LaidOut)
    (hp : o.getOwn k = some p) : o.define k p.toDescriptor = .ok o := by
  cases place : o.place k with
  | element elements i =>
      obtain ⟨kind, -⟩ := of_place_eq_element place
      simp only [getOwn, place] at hp
      obtain ⟨v, hv, rfl⟩ := Option.map_eq_some_iff.1 hp
      have defined : defineElement elements o.extensible i (Property.data v).toDescriptor =
          .ok (elements.put i v) := by
        simp [defineElement, Property.data, Property.toDescriptor, Descriptor.isAccessor, hv]
      simp only [Object.define, place, defined, (h.fits kind).put_eq_self hv, ← kind, Except.map]
  | length elements =>
      obtain ⟨kind, -⟩ := of_place_eq_length place
      simp only [getOwn, place] at hp
      cases hp
      have defined : defineLength elements elements.lengthProperty.toDescriptor =
          .ok (elements.resize elements.length) := by
        simp only [defineLength, Elements.lengthProperty, Property.toDescriptor, Value.number?,
          Option.bind_some, Number.length?_ofNat (h.fits kind).length]
      simp only [Object.define, place, defined, (h.fits kind).resize_eq_self, ← kind, Except.map]
  | entry =>
      simp only [getOwn, place] at hp
      rw [define_of_hasEntry ⟨place, hp⟩, Property.admits_toDescriptor, if_pos rfl,
        Property.merged_toDescriptor, Table.put_eq_self hp]

end Object

/-! ## Definitions by reflection -/

/-- What a definition on a new object leaves: it has that property and no other, and the objects
that were there before are as they were. -/
structure World.GainsOnly (w w' : World κ σ) (o : ObjectId) (k : Key) (p : Property) : Prop where
  fresh : w.heap.contains o = false
  contained : w'.heap.contains o = true
  ordinary : (w'.heap.get o).kind = .ordinary
  own : (w'.heap.get o).getOwn k = some p
  keys : (w'.heap.get o).ownKeys = [k]
  leaves : w.heap.Leaves (w.heap.contains · = true) w'.heap

theorem Object.ownKeys_put_make {prototype : Option ObjectId} (k : Key) (p : Property) :
    ((Object.make .ordinary prototype : Object κ).put k p).ownKeys = [k] := by
  rw [ownKeys_of_not_array rfl]
  exact (Table.keys_put_of_absent p (Table.find?_empty k)).trans (by simp)

theorem World.gainsOnly_put (w : World κ σ) (prototype : Option ObjectId) (k : Key) (p : Property) :
    w.GainsOnly
      { w with heap := (w.heap.allocate ((Object.make .ordinary prototype).put k p)).2 }
      w.heap.next k p where
  fresh := w.heap.contains_next
  contained := Heap.contains_allocate_next ..
  ordinary := by
    rw [Heap.get_allocate_next]
    rfl
  own := by
    rw [Heap.get_allocate_next]
    exact Table.find?_put_self ..
  keys := by
    rw [Heap.get_allocate_next]
    exact Object.ownKeys_put_make k p
  leaves := .allocate ..

/-- On a new object the description of a property makes its like. -/
theorem World.define_toDescriptor_next (w : World κ σ) (prototype : Option ObjectId) (k : Key)
    (p : Property) :
    Run.change w.heap.next (·.define k p.toDescriptor)
        { w with heap := (w.heap.allocate (.make .ordinary prototype)).2 } =
      .value ()
        { w with heap := (w.heap.allocate ((Object.make .ordinary prototype).put k p)).2 } := by
  have defined : ((w.heap.allocate (.make .ordinary prototype)).2.get w.heap.next).define k
      p.toDescriptor = .ok (((w.heap.allocate (.make .ordinary prototype)).2.get
        w.heap.next).put k p) := by
    rw [Heap.get_allocate_next]
    exact Class.define_copy rfl rfl (Table.find?_empty k) p
  refine (Run.change_of_ok (f := (·.define k p.toDescriptor)) defined).trans ?_
  rw [Heap.get_allocate_next]
  exact congrArg (fun h => Outcome.value () { w with heap := h })
    (Heap.set_allocate_next w.heap _ ((Object.make .ordinary prototype).put k p))

/-- What reflection tells of an own property of any object can be defined again: in its place it
changes nothing at all, and on a new object, whenever that is made, it makes the like of it. -/
theorem World.Reached.perform_define_own {w : World κ σ} (hw : w.Reached) {o : ObjectId} {k : Key}
    (hk : k ∈ (w.heap.get o).ownKeys) (exec : Exec κ σ) (n : Nat) :
    ∃ p, (Query.getOwn o k).answer w = some p ∧
      perform exec n (.define o k p.toDescriptor) w = .value () w ∧
      ∀ (u : World κ σ) (prototype : Option ObjectId), ∃ q made filled,
        perform exec n (.newObject prototype) u = .value q made ∧
        perform exec n (.define q k p.toDescriptor) made = .value () filled ∧
        u.GainsOnly filled q k p := by
  have l := hw.laidOut
  obtain ⟨p, hp⟩ := Option.isSome_iff_exists.1 ((l o).mem_ownKeys_iff.1 hk)
  refine ⟨p, hp, ?_, fun u prototype => ⟨u.heap.next, _, _, rfl,
    u.define_toDescriptor_next prototype k p, u.gainsOnly_put prototype k p⟩⟩
  refine (Run.change_of_ok (f := (·.define k p.toDescriptor))
    ((l o).define_toDescriptor hp)).trans ?_
  rw [Heap.set_get]

/-- An array that cannot grow, with a hole, an element, its length, a read-only value that is not a
number and an accessor without functions. -/
theorem World.Reached.perform_define_own_array :
    let names : List Key := [.ofIndex 1, .length, .text "fixed", .text "absent"]
    ∃ w : World Unit Unit, w.Reached ∧ (w.heap.get ⟨0⟩).ownKeys = names ∧
      (w.heap.get ⟨0⟩).extensible = false ∧
      ∀ k ∈ names, ∃ p, (Query.getOwn ⟨0⟩ k).answer w = some p ∧
        perform (fun _ _ => Run.exhausted) 0 (.define ⟨0⟩ k p.toDescriptor) w = .value () w ∧
        ∀ (u : World Unit Unit) (prototype : Option ObjectId), ∃ q made filled,
          perform (fun _ _ => Run.exhausted) 0 (.newObject prototype) u = .value q made ∧
          perform (fun _ _ => Run.exhausted) 0 (.define q k p.toDescriptor) made =
            .value () filled ∧
          u.GainsOnly filled q k p := by
  intro names
  obtain ⟨w, reached, facts⟩ := World.exists_reached (fun _ _ => .done (.ok .null)) 0
    (.ask (.newArray [.null, .string "element"] none) fun _ =>
      .ask (.delete ⟨0⟩ (.ofIndex 0)) fun _ =>
      .ask (.define ⟨0⟩ (.text "fixed") (.onlyValue (.number .nan))) fun _ =>
      .ask (.define ⟨0⟩ (.text "absent") { getter := some .undefined }) fun _ =>
      .ask (.preventExtensions ⟨0⟩) fun _ => .ask .newKey fun _ => .done (.ok .null))
    (.initial id) ()
    (fun w : World Unit Unit => ((w.heap.get ⟨0⟩).ownKeys, (w.heap.get ⟨0⟩).extensible))
    (show _ = some (names, false) by decide +kernel)
  obtain ⟨keys, fixed⟩ := Prod.mk.inj facts
  exact ⟨w, reached, keys, fixed, fun k hk =>
    reached.perform_define_own (keys ▸ hk) (fun _ _ => Run.exhausted) 0⟩

end Prototypal
