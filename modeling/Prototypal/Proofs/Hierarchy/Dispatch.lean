import Prototypal.Access
import Prototypal.Proofs.Hierarchy.Making

/-!
# Dispatch in class hierarchies

What a class inherits is what the nearest class above it has among its members.  That is what is
read and called by way of the class, and an instance has it, too.
-/

namespace Prototypal

variable {κ σ : Type} {exec : Exec κ σ} {w w' : World κ σ} {l : Level} {levels : List Level}

/-! ## What a class inherits -/

namespace Heap.Built

/-- The nearest member above a class is what the class inherits. -/
theorem inheritedSlot (b : w.heap.Built (l :: levels)) (k : Key) :
    Class.inheritedSlot exec l.constructor k w =
      .value ((Level.find? w.heap levels k).map Property.slot) w := by
  have stands := b.stands
  have bound := Nat.le_succ_of_le b.tail.length_le_size
  unfold Class.inheritedSlot
  rw [Run.bind_of_value (Member.get_of_own stands.own _), ← b.tail.findUpTo bound]
  change Outcome.value ((w.heap.get l.prototype).prototype.bind fun p => w.heap.findSlot p k) w = _
  rw [stands.inherits]
  cases levels <;> rfl

theorem plain (b : w.heap.Built levels) {k : Key} {p : Property}
    (h : Level.find? w.heap levels k = some p) : p.isAccessor = false := by
  obtain ⟨l, hl, hp⟩ := List.exists_of_findSome?_eq_some h
  obtain ⟨above, stands⟩ := b.stands_of_mem hl
  exact stands.plain k p hp

/-- The nearest member is a data property, if there is one. -/
theorem slot_find? (b : w.heap.Built levels) (k : Key) :
    ((Level.find? w.heap levels k).map Property.slot = none ∧
      Level.value w.heap levels k = .undefined) ∨
    ∃ v writable, (Level.find? w.heap levels k).map Property.slot = some (.data v writable) ∧
      Level.value w.heap levels k = v := by
  unfold Level.value
  cases hp : Level.find? w.heap levels k with
  | none => exact .inl ⟨rfl, rfl⟩
  | some p =>
      have plain := b.plain hp
      obtain ⟨slot, enumerable, configurable⟩ := p
      cases slot with
      | data v writable => exact .inr ⟨v, writable, rfl, rfl⟩
      | accessor => cases plain

theorem superGet (b : w.heap.Built (l :: levels)) (self : Value) (k : Key) :
    Class.superGet exec self l.constructor k w = .value (Level.value w.heap levels k) w := by
  unfold Class.superGet
  rw [Run.bind_of_value (b.inheritedSlot k)]
  rcases b.tail.slot_find? k with ⟨hs, hv⟩ | ⟨v, writable, hs, hv⟩
  · rw [hs, hv]
    rfl
  · rw [hs, hv]
    rfl

theorem superCall (b : w.heap.Built (l :: levels)) (self : Value) (k : Key)
    (arguments : List Value) :
    Class.superCall exec self l.constructor k arguments w =
      match w.heap.callable? (Level.value w.heap levels k) with
      | some f => call exec f self arguments w
      | none => .fault (.noSuperMethod k) w := by
  unfold Class.superCall
  rw [Run.bind_of_value (b.inheritedSlot k)]
  rcases b.tail.slot_find? k with ⟨hs, hv⟩ | ⟨v, writable, hs, hv⟩
  · rw [hs, hv]
    rfl
  · rw [hs, hv]
    dsimp only
    rw [Run.viewHeap_bind]
    cases w.heap.callable? v <;> rfl

theorem superSet (b : w.heap.Built (l :: levels)) (self : Value) (k : Key) (v : Value) :
    Class.superSet exec self l.constructor k v w = .fault (.noSuperSetter k) w := by
  unfold Class.superSet
  rw [Run.bind_of_value (b.inheritedSlot k)]
  rcases b.tail.slot_find? k with ⟨hs, -⟩ | ⟨v, writable, hs, -⟩
  · rw [hs]
    rfl
  · rw [hs]
    rfl

end Heap.Built

/-! ## Instances -/

/-- The world in which the body of a constructor begins: with an object that inherits from the
prototype of the class. -/
def Level.instantiated (l : Level) (w : World κ σ) : World κ σ :=
  { w with heap := (w.heap.allocate (.make .ordinary (some l.prototype))).2 }

namespace Heap.Built

/-- Construction runs the body with a new object that inherits from the prototype of the class. -/
theorem construct (b : w.heap.Built (l :: levels)) {arguments : List Value} {r : Value}
    (body : call exec l.constructor (.object w.heap.next) arguments (l.instantiated w) =
      .value r w') (hr : r.object? = none) :
    construct exec l.constructor arguments w = .value (.object w.heap.next) w' := by
  have stands := b.stands
  unfold Prototypal.construct
  rw [Run.viewHeap_bind, if_pos stands.callable, Run.bind_of_value (Member.get_of_own stands.own _),
    Run.allocate_bind]
  refine (Run.bind_of_value body).trans ?_
  rw [hr]
  rfl

theorem get_instance (b : w.heap.Built (l :: levels))
    (left : (l.instantiated w).heap.Leaves ((l.instantiated w).heap.contains · = true) w'.heap)
    {k : Key} (hk : k.isReserved = false) :
    Access.get exec (.object w.heap.next) k w' =
      .value (Level.value w.heap (l :: levels) k) w' := by
  have stands := b.stands
  have made : w'.heap.get w.heap.next = .make .ordinary (some l.prototype) := by
    refine (left.get (Heap.contains_allocate_next ..)).trans ((Heap.get_allocate_next ..).trans ?_)
    simp [Object.make, stands.contained (Level.mem_objects.2 (.inr (.inr rfl)))]
  have kept : w.heap.Leaves (fun o => ∃ l' ∈ l :: levels, o ∈ l'.objects) w'.heap :=
    ((Heap.Leaves.allocate ..).mono b.contained).trans
      (left.mono fun o ho => Heap.contains_allocate _ (b.contained o ho))
  have built := b.leaves kept
  have found : w'.heap.find w.heap.next k = Level.find? w.heap (l :: levels) k := by
    rw [← Level.find?_leaves kept, ← built.findUpTo built.length_le_size, Heap.find, Heap.findUpTo,
      made, Object.getOwn_of_not_array rfl, Object.make, Table.find?_empty]
    rfl
  rw [Access.get_of_unreserved hk, Member.get_of_plain, found]
  · rfl
  · rw [found]
    exact fun p => b.plain

end Heap.Built

/-- Dispatch in hierarchies of any depth.  An inherited member of a class is that of the nearest
class above it that has one under the key.  It is what is read, and what is called, with the given
`this` and arguments; where it cannot be called or there is none, dispatch fails; and no member is a
setter.  An instance, made by a constructor whose body writes nothing and gives no object, also has
the members of its own class. -/
theorem Hierarchy.dispatch {above below : List Level} (h : Hierarchy w (above ++ l :: below))
    (exec : Exec κ σ) :
    (∀ self k, Class.superGet exec self l.constructor k w =
      .value (Level.value w.heap below k) w) ∧
    (∀ self k arguments, Class.superCall exec self l.constructor k arguments w =
      match w.heap.callable? (Level.value w.heap below k) with
      | some f => call exec f self arguments w
      | none => .fault (.noSuperMethod k) w) ∧
    (∀ self k v, Class.superSet exec self l.constructor k v w = .fault (.noSuperSetter k) w) ∧
    (∀ k, (Fault.noSuperMethod k).kind = .dispatch ∧ (Fault.noSuperSetter k).kind = .dispatch) ∧
    ∀ arguments r w',
      call exec l.constructor (.object w.heap.next) arguments (l.instantiated w) = .value r w' →
      r.object? = none →
      (l.instantiated w).heap.Leaves ((l.instantiated w).heap.contains · = true) w'.heap →
      construct exec l.constructor arguments w = .value (.object w.heap.next) w' ∧
        ∀ k, k.isReserved = false → Access.get exec (.object w.heap.next) k w' =
          .value (Level.value w.heap (l :: below) k) w' := by
  have built := h.built.suffix
  exact ⟨built.superGet, built.superCall, built.superSet, fun k => ⟨rfl, rfl⟩,
    fun arguments r w' body hr left => ⟨built.construct body hr, fun k => built.get_instance left⟩⟩

/-- A class and its instances inherit what is a member of the parent class only. -/
theorem Hierarchy.dispatch_inherited :
    let exec : Exec Unit Unit := fun _ _ => pure .undefined
    let k := Key.text "k"
    let w : World Unit Unit :=
      { World.boot (.initial id) () with
        heap := ⟨#[.make (.function "A" (.client ())) none,
          { Object.make .ordinary none with table := Table.empty.put k (.data (.string "a")) },
          .make (.function "B" (.client ())) none, .make .ordinary none]⟩ }
    ∃ v w' a b, Class.create exec ⟨0⟩ ⟨1⟩ .null w = .value ⟨0⟩ v ∧
      Class.create exec ⟨2⟩ ⟨3⟩ (.object ⟨0⟩) v = .value ⟨2⟩ w' ∧
      Hierarchy w' [⟨⟨2⟩, ⟨3⟩, b⟩, ⟨⟨0⟩, ⟨1⟩, a⟩] ∧
      Class.superGet exec .null ⟨2⟩ k w' = .value (.string "a") w' ∧
      ∃ w'', construct exec ⟨2⟩ [] w' = .value (.object w'.heap.next) w'' ∧
        Access.get exec (.object w'.heap.next) k w'' = .value (.string "a") w'' := by
  intro exec k w
  obtain ⟨c, w', run, first, second⟩ : ∃ c w', (do
      let parent ← Class.create exec ⟨0⟩ ⟨1⟩ .null
      Class.create exec ⟨2⟩ ⟨3⟩ (.object parent) : Run Unit Unit ObjectId) w = .value c w' ∧
      (w'.heap.get ⟨1⟩).getOwn k = some (.data (.string "a")) ∧
      (w'.heap.get ⟨3⟩).getOwn k = none := by
    have computed : (match (do
        let parent ← Class.create exec ⟨0⟩ ⟨1⟩ .null
        Class.create exec ⟨2⟩ ⟨3⟩ (.object parent) : Run Unit Unit ObjectId) w with
        | .value _ w' => some ((w'.heap.get ⟨1⟩).getOwn k, (w'.heap.get ⟨3⟩).getOwn k)
        | _ => none) = some (some (.data (.string "a")), none) := by decide +kernel
    split at computed
    · simp only [Option.some.injEq, Prod.mk.injEq] at computed
      exact ⟨_, _, ‹_›, computed⟩
    · cases computed
  obtain ⟨parent, v, created, extended⟩ := Run.bind_eq_value run
  obtain ⟨rfl, -⟩ := Class.create_eq_value created
  obtain ⟨rfl, -⟩ := Class.create_eq_value extended
  have empty : (Object.make .ordinary none : Object Unit).Plain := fun j p hp =>
    nomatch (Table.find?_empty j).symm.trans hp
  have ready : Level.Ready w.heap [] ⟨0⟩ ⟨1⟩ := {
    callable := rfl
    ordinary := rfl
    plain := empty.put rfl rfl
    other := fun hl => nomatch hl }
  obtain ⟨left, a, fresh, stands⟩ := ready.create .nil created
  have constructor := left.get (o := ⟨2⟩) ⟨by decide, by decide, rfl⟩
  have members := left.get (o := ⟨3⟩) ⟨by decide, by decide, rfl⟩
  have ready' : Level.Ready v.heap [⟨⟨0⟩, ⟨1⟩, a⟩] ⟨2⟩ ⟨3⟩ := {
    callable := constructor ▸ rfl
    ordinary := members ▸ rfl
    plain := members ▸ empty
    other := fun {l} hl => by
      cases List.mem_singleton.1 hl
      refine ⟨(by decide : (⟨2⟩ : ObjectId) ≠ ⟨0⟩), (by decide : (⟨3⟩ : ObjectId) ≠ ⟨1⟩), ?_⟩
      rintro rfl
      exact absurd fresh (by decide) }
  have first_level := Hierarchy.create (.start w) ready created stands.own
  obtain ⟨b, hierarchy⟩ := first_level.extend ready' extended
  have inherited : Level.value w'.heap [⟨⟨0⟩, ⟨1⟩, a⟩] k = .string "a" := by
    simp only [Level.value, Level.find?_cons, first]
    rfl
  have reached : Level.value w'.heap [⟨⟨2⟩, ⟨3⟩, b⟩, ⟨⟨0⟩, ⟨1⟩, a⟩] k = .string "a" := by
    simp only [Level.value, Level.find?_cons, first, second]
    rfl
  have split : Hierarchy w' ([] ++ ⟨⟨2⟩, ⟨3⟩, b⟩ :: [⟨⟨0⟩, ⟨1⟩, a⟩]) := hierarchy
  obtain ⟨superGet, -, -, -, instances⟩ := Hierarchy.dispatch split exec
  let started := Level.instantiated ⟨⟨2⟩, ⟨3⟩, b⟩ w'
  have body : call exec ⟨2⟩ (.object w'.heap.next) [] started = .value .undefined started := by
    have callable : (w'.heap.get ⟨2⟩).isCallable = true := hierarchy.built.stands.callable
    have kept : started.heap.get ⟨2⟩ = w'.heap.get ⟨2⟩ :=
      Heap.get_allocate_of_contains _ (Heap.contains_of_isCallable callable)
    obtain ⟨code, hc⟩ := Option.isSome_iff_exists.1 callable
    unfold call
    rw [Run.viewHeap_bind, kept, hc]
    rfl
  obtain ⟨made, got⟩ := instances [] .undefined started body rfl ⟨Nat.le_refl _, fun _ => rfl⟩
  exact ⟨v, w', a, b, created, extended, hierarchy, inherited ▸ superGet .null k, _, made,
    reached ▸ got k (by decide)⟩

end Prototypal
