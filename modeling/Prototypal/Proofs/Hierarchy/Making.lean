import Prototypal.Proofs.Class

/-!
# Class hierarchies

Classes made one after the other, each of which extends the one before.  Every successful creation
leaves the classes before as they stand: their prototypes form a chain, and each prototype has the
properties that the members of its class have.
-/

namespace Prototypal

variable {κ σ : Type}

/-- A class of a hierarchy: its constructor, the object that holds its members, and the object that
its instances inherit from. -/
structure Level where
  constructor : ObjectId
  members : ObjectId
  prototype : ObjectId

namespace Level

/-- The objects that a class consists of. -/
def objects (l : Level) : List ObjectId := [l.constructor, l.members, l.prototype]

theorem mem_objects {l : Level} {o : ObjectId} :
    o ∈ l.objects ↔ o = l.constructor ∨ o = l.members ∨ o = l.prototype := by
  simp [objects]

/-- What the next class of a hierarchy extends. -/
def parent : List Level → Value
  | [] => .null
  | l :: _ => .object l.constructor

/-- The member under a key, of the nearest class that has one. -/
def find? (h : Heap κ) (levels : List Level) (k : Key) : Option Property :=
  levels.findSome? fun l => (h.get l.members).getOwn k

theorem find?_cons (h : Heap κ) (l : Level) (levels : List Level) (k : Key) :
    find? h (l :: levels) k = ((h.get l.members).getOwn k).or (find? h levels k) := by
  rw [find?, List.findSome?_cons]
  cases (h.get l.members).getOwn k <;> rfl

/-- The value of the nearest member under a key, or `undefined` if there is none. -/
def value (h : Heap κ) (levels : List Level) (k : Key) : Value :=
  ((find? h levels k).bind Property.value?).getD .undefined

end Level

/-- A constructor and its members may become the next class of a hierarchy: the members are an
ordinary object with data properties only, and neither is part of the hierarchy yet. -/
structure Level.Ready (h : Heap κ) (levels : List Level) (constructor members : ObjectId) :
    Prop where
  callable : (h.get constructor).isCallable = true
  ordinary : (h.get members).kind = .ordinary
  plain : (h.get members).Plain
  other {l : Level} : l ∈ levels →
    constructor ≠ l.constructor ∧ members ≠ l.members ∧ members ≠ l.prototype

/-- A hierarchy of classes in a world, the latest first.  The first class extends `null` and every
other the class before it.  Each was made by a successful creation, and since then nothing happened
to its objects. -/
inductive Hierarchy : World κ σ → List Level → Prop
  | start (w : World κ σ) : Hierarchy w []
  | create {exec : Exec κ σ} {w w' : World κ σ} {levels : List Level}
      {constructor members prototype c : ObjectId} (h : Hierarchy w levels)
      (ready : Level.Ready w.heap levels constructor members)
      (created : Class.create exec constructor members (Level.parent levels) w = .value c w')
      (own : ((w'.heap.get constructor).getOwn .prototype).bind Property.value? =
        some (.object prototype)) : Hierarchy w' (⟨constructor, members, prototype⟩ :: levels)
  | idle {w w' : World κ σ} {levels : List Level} (h : Hierarchy w levels)
      (left : w.heap.Leaves (fun o => ∃ l ∈ levels, o ∈ l.objects) w'.heap) : Hierarchy w' levels

/-! ## How a hierarchy stands in the heap -/

/-- A class as it stands after its creation. -/
structure Level.Stands (h : Heap κ) (l : Level) (above : Option ObjectId) : Prop where
  callable : (h.get l.constructor).isCallable = true
  own : ((h.get l.constructor).getOwn .prototype).bind Property.value? = some (.object l.prototype)
  contained {o : ObjectId} : o ∈ l.objects → h.contains o = true
  ordinaryMembers : (h.get l.members).kind = .ordinary
  plain : (h.get l.members).Plain
  ordinaryPrototype : (h.get l.prototype).kind = .ordinary
  inherits : (h.get l.prototype).prototype = above
  copied (k : Key) : (h.get l.prototype).getOwn k = (h.get l.members).getOwn k

/-- The classes of a hierarchy, each above the next, with prototypes that were made in order. -/
inductive Heap.Built (h : Heap κ) : List Level → Prop
  | nil : Built h []
  | cons {l : Level} {levels : List Level} (built : Built h levels)
      (stands : l.Stands h (levels.head?.map (·.prototype)))
      (later : ∀ l' ∈ levels, l'.prototype.index < l.prototype.index) : Built h (l :: levels)

namespace Level.Stands

variable {h h' : Heap κ} {l : Level} {above : Option ObjectId}

theorem leaves (s : l.Stands h above) (hl : h.Leaves (· ∈ l.objects) h') : l.Stands h' above := by
  have constructor := hl.get (mem_objects.2 (.inl rfl))
  have members := hl.get (mem_objects.2 (.inr (.inl rfl)))
  have prototype := hl.get (mem_objects.2 (.inr (.inr rfl)))
  exact {
    callable := constructor ▸ s.callable
    own := constructor ▸ s.own
    contained := fun ho => hl.contains (s.contained ho)
    ordinaryMembers := members ▸ s.ordinaryMembers
    plain := members ▸ s.plain
    ordinaryPrototype := prototype ▸ s.ordinaryPrototype
    inherits := prototype ▸ s.inherits
    copied := fun k => by rw [prototype, members, s.copied] }

end Level.Stands

theorem Level.find?_leaves {h h' : Heap κ} {levels : List Level}
    (hl : h.Leaves (fun o => ∃ l ∈ levels, o ∈ l.objects) h') (k : Key) :
    find? h' levels k = find? h levels k := by
  induction levels with
  | nil => rfl
  | cons l levels ih =>
      rw [find?_cons, find?_cons, hl.get ⟨l, List.mem_cons_self, mem_objects.2 (.inr (.inl rfl))⟩,
        ih (hl.mono fun o ⟨l, hm, ho⟩ => ⟨l, List.mem_cons_of_mem _ hm, ho⟩)]

namespace Heap.Built

variable {h h' : Heap κ} {l : Level} {levels above : List Level}

theorem stands (b : h.Built (l :: levels)) : l.Stands h (levels.head?.map (·.prototype)) := by
  cases b
  assumption

theorem tail (b : h.Built (l :: levels)) : h.Built levels := by
  cases b
  assumption

theorem suffix (b : h.Built (above ++ levels)) : h.Built levels := by
  induction above with
  | nil => exact b
  | cons l above ih => exact ih b.tail

theorem leaves (b : h.Built levels)
    (hl : h.Leaves (fun o => ∃ l ∈ levels, o ∈ l.objects) h') : h'.Built levels := by
  induction b with
  | nil => exact .nil
  | cons built stands later ih =>
      refine .cons (ih ⟨hl.size, fun ⟨l, hm, ho⟩ => hl.get ⟨l, List.mem_cons_of_mem _ hm, ho⟩⟩)
        (stands.leaves ⟨hl.size, fun ho => hl.get ⟨_, List.mem_cons_self, ho⟩⟩) later

theorem stands_of_mem (b : h.Built levels) (hl : l ∈ levels) : ∃ above, l.Stands h above := by
  induction b with
  | nil => cases hl
  | cons built stands later ih =>
      rcases List.mem_cons.1 hl with rfl | hl
      · exact ⟨_, stands⟩
      · exact ih hl

theorem contained (b : h.Built levels) (o : ObjectId) (ho : ∃ l ∈ levels, o ∈ l.objects) :
    h.contains o = true := by
  obtain ⟨l, hl, ho⟩ := ho
  obtain ⟨above, stands⟩ := b.stands_of_mem hl
  exact stands.contained ho

/-- At least as many objects were made before a prototype as there are classes above its own. -/
theorem length_le_index (b : h.Built (l :: levels)) : levels.length ≤ l.prototype.index := by
  induction levels generalizing l with
  | nil => exact Nat.zero_le _
  | cons l' levels ih =>
      cases b with
      | cons built stands later =>
          exact Nat.lt_of_le_of_lt (ih built) (later l' List.mem_cons_self)

theorem length_le_size (b : h.Built levels) : levels.length ≤ h.size := by
  cases b with
  | nil => exact Nat.zero_le _
  | cons built stands later =>
      exact Nat.lt_of_le_of_lt (length_le_index (.cons built stands later))
        (contains_iff.1 (stands.contained (Level.mem_objects.2 (.inr (.inr rfl)))))

/-- Lookup along the prototypes of a hierarchy goes through the members of its classes. -/
theorem findUpTo (b : h.Built levels) {n : Nat} (hn : levels.length ≤ n) (k : Key) :
    ((levels.head?.map (·.prototype)).bind fun p => h.findUpTo n p k) =
      Level.find? h levels k := by
  induction b generalizing n with
  | nil => rfl
  | @cons l levels built stands later ih =>
      cases n with
      | zero => cases hn
      | succ n =>
          rw [Level.find?_cons, ← ih (Nat.le_of_succ_le_succ hn), ← stands.copied]
          simp only [List.head?_cons, Option.map_some, Option.bind_some, Heap.findUpTo,
            stands.inherits]
          cases (h.get l.prototype).getOwn k with
          | some p => rfl
          | none => cases levels <;> rfl

end Heap.Built

/-! ## The making of a hierarchy -/

variable {exec : Exec κ σ} {w w' : World κ σ} {l : Level} {levels : List Level}

/-- The next class of a hierarchy inherits from the prototype of the last.  Of its constructor only
the prototype may change. -/
theorem Heap.Built.inheritFrom (b : w.heap.Built levels) {constructor : ObjectId}
    {above : Option ObjectId} (other : ∀ l ∈ levels, constructor ≠ l.constructor)
    (h : Class.inheritFrom exec constructor (Level.parent levels).object? w = .value above w') :
    above = levels.head?.map (·.prototype) ∧ w.heap.Leaves (· ≠ constructor) w'.heap ∧
      (w'.heap.get constructor).kind = (w.heap.get constructor).kind := by
  cases levels with
  | nil =>
      cases h
      exact ⟨rfl, ⟨Nat.le_refl _, fun _ => rfl⟩, rfl⟩
  | cons l levels =>
      have own := b.stands.own
      obtain ⟨p, hp, -⟩ := Option.bind_eq_some_iff.1 own
      simp only [Class.inheritFrom, Level.parent, Value.object?, Run.viewHeap_bind, Heap.has,
        Heap.find_of_own hp, Option.isSome_some, if_true] at h
      obtain ⟨_, linked, link, h⟩ := Run.bind_eq_value h
      cases Run.setPrototype_eq_value link
      rw [Run.bind_of_value (Member.get_of_own (v := .object l.prototype) ?_ _)] at h
      · cases h
        exact ⟨rfl, .set .., Heap.kind_setPrototype ..⟩
      · exact (Heap.get_set_of_ne _ _ (other l List.mem_cons_self).symm).symm ▸ own

namespace Level.Ready

variable {h : Heap κ} {constructor members : ObjectId}

theorem ne (r : Level.Ready h levels constructor members) : constructor ≠ members :=
  Heap.ne_of_isCallable r.callable r.ordinary

theorem flat (r : Level.Ready h levels constructor members) :
    (h.get members).elements? = none := by
  simp [Object.elements?, r.ordinary]

/-- The objects of a hierarchy are neither members nor constructor of the next class. -/
theorem apart (r : Level.Ready h levels constructor members) (b : h.Built levels) (o : ObjectId)
    (ho : ∃ l ∈ levels, o ∈ l.objects) :
    o ≠ members ∧ o ≠ constructor ∧ h.contains o = true := by
  obtain ⟨l, hl, ho⟩ := ho
  obtain ⟨above, stands⟩ := b.stands_of_mem hl
  obtain ⟨hc, hm, hp⟩ := r.other hl
  have held := stands.contained ho
  rcases Level.mem_objects.1 ho with rfl | rfl | rfl
  · exact ⟨Heap.ne_of_isCallable stands.callable r.ordinary, hc.symm, held⟩
  · exact ⟨hm.symm, (Heap.ne_of_isCallable r.callable stands.ordinaryMembers).symm, held⟩
  · exact ⟨hp.symm, (Heap.ne_of_isCallable r.callable stands.ordinaryPrototype).symm, held⟩

end Level.Ready

/-- What a successful creation of the next class leaves: the class stands, its prototype is new, and
nothing but its members and its constructor has changed. -/
theorem Level.Ready.create {constructor members c : ObjectId}
    (r : Level.Ready w.heap levels constructor members) (b : w.heap.Built levels)
    (created : Class.create exec constructor members (Level.parent levels) w = .value c w') :
    w.heap.Leaves (fun o => o ≠ members ∧ o ≠ constructor ∧ w.heap.contains o = true) w'.heap ∧
      ∃ prototype : ObjectId, w.heap.size ≤ prototype.index ∧
        Level.Stands w'.heap ⟨constructor, members, prototype⟩
          (levels.head?.map (·.prototype)) := by
  obtain ⟨-, above, prototype, linked, inherited, copied, steps⟩ := Class.create_eq_value created
  -- The members change in the first step only, and the constructor in the second and the last.
  obtain ⟨held, left₁, p, hp, members₁⟩ := Run.define_onlyValue r.flat steps.link
  have built₁ := b.leaves (left₁.mono fun o ho => (r.apart b o ho).1)
  obtain ⟨rfl, left₂, kind⟩ := built₁.inheritFrom (fun l hl => (r.other hl).1) steps.inherit
  have members₂ := (left₂.get r.ne.symm).trans members₁
  have callable : (inherited.heap.get constructor).isCallable = true := by
    rw [Object.isCallable_of_kind kind, left₁.get r.ne]
    exact r.callable
  have held₂ {o : ObjectId} (ho : w.heap.contains o = true) : inherited.heap.contains o = true :=
    left₂.contains (left₁.contains ho)
  have constructor_held := held₂ (Heap.contains_of_isCallable r.callable)
  obtain ⟨rfl, left₃, made, copied₃⟩ := Class.copyOnto_eq_value (held₂ held)
    (members₂ ▸ r.flat) steps.copy
  have constructor₃ := left₃.get constructor_held
  have flat : (copied.heap.get constructor).elements? = none :=
    Object.elements?_of_isCallable (constructor₃ ▸ callable)
  obtain ⟨-, left₄, q, hq, closed⟩ := Run.define_onlyValue flat steps.close
  have prototype_ne : inherited.heap.next ≠ constructor := fun e =>
    Nat.lt_irrefl _ (Heap.contains_iff.1 (e ▸ constructor_held))
  have members₄ := (left₄.get r.ne.symm).trans ((left₃.get (held₂ held)).trans members₂)
  have prototype₄ := (left₄.get prototype_ne).trans copied₃
  refine ⟨?_, inherited.heap.next, Nat.le_trans left₁.size left₂.size, ?_⟩
  · refine (left₁.mono fun o ho => ho.1).trans ((left₂.mono fun o ho => ho.2.1).trans ?_)
    exact (left₃.mono fun o ho => held₂ ho.2.2).trans (left₄.mono fun o ho => ho.2.1)
  · exact {
      callable := by
        rw [closed]
        exact constructor₃ ▸ callable
      own := by
        rw [closed, Object.getOwn_put_self (Object.place_of_not_array flat _)]
        exact hq
      contained := fun {o} ho => by
        rcases Level.mem_objects.1 ho with rfl | rfl | rfl
        · exact left₄.contains (left₃.contains constructor_held)
        · exact left₄.contains (left₃.contains (held₂ held))
        · exact left₄.contains made
      ordinaryMembers := members₄ ▸ r.ordinary
      plain := members₄ ▸ r.plain.put r.flat hp
      ordinaryPrototype := by
        rw [prototype₄]
        rfl
      inherits := by
        rw [prototype₄]
        cases levels with
        | nil => rfl
        | cons l levels =>
            have above := b.stands.contained (Level.mem_objects.2 (.inr (.inr rfl)))
            exact Option.filter_eq_some_iff.2 ⟨rfl, held₂ above⟩
      copied := fun k => by
        rw [prototype₄, Class.getOwn_copy (members₂ ▸ r.flat), members₄, members₂] }

/-- A successful creation makes the next class of a hierarchy. -/
theorem Heap.Built.create (b : w.heap.Built levels) {constructor members prototype c : ObjectId}
    (r : Level.Ready w.heap levels constructor members)
    (created : Class.create exec constructor members (Level.parent levels) w = .value c w')
    (own : ((w'.heap.get constructor).getOwn .prototype).bind Property.value? =
      some (.object prototype)) :
    w'.heap.Built (⟨constructor, members, prototype⟩ :: levels) := by
  obtain ⟨left, made, fresh, stands⟩ := r.create b created
  cases own.symm.trans stands.own
  refine .cons (b.leaves (left.mono (r.apart b))) stands fun l hl => ?_
  have held := b.contained l.prototype ⟨l, hl, Level.mem_objects.2 (.inr (.inr rfl))⟩
  exact Nat.lt_of_lt_of_le (Heap.contains_iff.1 held) fresh

theorem Hierarchy.built (h : Hierarchy w levels) : w.heap.Built levels := by
  induction h with
  | start => exact .nil
  | create h ready created own ih => exact ih.create ready created own
  | idle h left ih => exact ih.leaves left

/-- Every successful creation goes on with the hierarchy. -/
theorem Hierarchy.extend (h : Hierarchy w levels) {constructor members c : ObjectId}
    (r : Level.Ready w.heap levels constructor members)
    (created : Class.create exec constructor members (Level.parent levels) w = .value c w') :
    ∃ prototype, Hierarchy w' (⟨constructor, members, prototype⟩ :: levels) := by
  obtain ⟨-, prototype, -, stands⟩ := r.create h.built created
  exact ⟨prototype, .create h r created stands.own⟩

end Prototypal
