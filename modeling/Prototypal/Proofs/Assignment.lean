import Prototypal.Proofs.Arrays.Writes
import Prototypal.Proofs.Chains
import Prototypal.Proofs.DataProperty

/-!
# Assignment

The chain of one object decides whether an assignment runs a setter, is refused, or is made; made it
is on another object, the receiver.  There it is a definition by a value, which gives the receiver
that property and changes nothing else but, in an array, the length or elements that go with it.
-/

namespace Prototypal

variable {κ σ : Type}

/-! ## What an object becomes -/

/-- What is stored of a value is the value itself, or, as the length of an array, the same number up
to the sign of zero. -/
def Object.StoresAs (o : Object κ) (k : Key) (v x : Value) : Prop :=
  x = v ∨ o.elements?.isSome ∧ k = .length ∧
    ∃ m n, v = .number m ∧ x = .number n ∧ m.numericEq n = true

/-- In an array, the length goes with the elements. -/
def Object.Couples (o : Object κ) (k j : Key) : Prop :=
  o.elements?.isSome ∧ (k.index?.isSome ∧ j = .length ∨ k = .length ∧ j.index?.isSome)

/-- What becomes of the elements of an array to which a value is written. -/
structure Elements.Written (e : Elements) (k : Key) (v : Value) (e' : Elements) : Prop where
  element {i : Nat} : k.index? = some i → e.PutAt i v e'
  length : k = .length → ∃ n, v.Measures n ∧ e.CutAt n e'
  other : k.index? = none → k ≠ .length → e' = e

/-- The object got a data property with the value, and nothing else but what goes with it. -/
structure Object.Written (o : Object κ) (k : Key) (v : Value) (o' : Object κ) : Prop where
  own : ∃ p x, o'.getOwn k = some p ∧ p.value? = some x ∧ o.StoresAs k v x
  others {j : Key} : j ≠ k → ¬ o.Couples k j → o'.getOwn j = o.getOwn j
  elements {e : Elements} : o.kind = .array e → ∃ e', o'.kind = .array e' ∧ e.Written k v e'
  kind : o.elements? = none → o'.kind = o.kind
  prototype : o'.prototype = o.prototype
  extensible : o'.extensible = o.extensible
  order : o'.table.keys = o.table.keys ∨
    o.getOwn k = none ∧ o'.table.keys = o.table.keys ++ [k]

/-- The property can be written, and has the attributes that it had, or all of them. -/
structure Object.Assigned (o : Object κ) (k : Key) (v : Value) (o' : Object κ) : Prop
    extends o.Written k v o' where
  attributes {p : Property} : o'.getOwn k = some p → (∃ x, p.slot = .data x true) ∧
    p.enumerable = (o.getOwn k).all (·.enumerable) ∧
    p.configurable = (o.getOwn k).all (·.configurable)

namespace Object

variable {o o' : Object κ} {k : Key} {v : Value} {d : Descriptor}

theorem getOwn_of_elements {e e' : Elements} {j : Key} (ho : o.kind = .array e)
    (same : ∀ i, j.index? = some i → e'.get? i = e.get? i)
    (length : j = .length → e'.length = e.length) :
    ({ o with kind := .array e' } : Object κ).getOwn j = o.getOwn j := by
  cases hj : j.index? with
  | some i => rw [getOwn_of_index rfl hj, getOwn_of_index ho hj, same i hj]
  | none =>
      rw [getOwn_of_not_index rfl hj, getOwn_of_not_index ho hj]
      by_cases hl : j = .length
      · rw [if_pos hl, if_pos hl, Elements.lengthProperty, Elements.lengthProperty, length hl]
      · rw [if_neg hl, if_neg hl]

theorem written_element {e : Elements} {i : Nat} (ho : o.kind = .array e) (hi : i ≤ Key.maxIndex) :
    o.Written (.ofIndex i) v { o with kind := .array (e.put i v) } := by
  have index : (Key.ofIndex i).index? = some i := Key.index?_eq_some_iff.2 ⟨rfl, hi⟩
  have array : o.elements?.isSome := by rw [elements?_of_kind ho]; rfl
  refine ⟨⟨.data v, v, ?_, rfl, .inl rfl⟩, fun {j} hj apart => ?_, fun {e₀} ho₀ => ?_,
    fun none => ?_, rfl, rfl, .inl rfl⟩
  · rw [getOwn_of_index rfl index, Elements.get?_put_self]
    rfl
  · refine getOwn_of_elements ho (fun i' hi' => Elements.get?_put_of_ne e v ?_) fun length => ?_
    · rintro rfl
      exact hj (Key.index?_eq_some_iff.1 hi').1
    · exact absurd ⟨array, .inl ⟨by simp [index], length⟩⟩ apart
  · cases ho.symm.trans ho₀
    refine ⟨_, rfl, fun {i'} hi' => ?_, fun same => absurd same (Key.ofIndex_ne_length i),
      fun none => ?_⟩
    · cases index.symm.trans hi'
      exact e.putAt_put i v
    · cases index.symm.trans none
  · rw [none] at array
    cases array

theorem written_length {e : Elements} {n : Nat} (ho : o.kind = .array e) (hv : v.Measures n) :
    o.Written .length v { o with kind := .array (e.resize n) } := by
  have index : Key.length.index? = none := by decide
  have array : o.elements?.isSome := by rw [elements?_of_kind ho]; rfl
  obtain ⟨bound, m, rfl, equal⟩ := hv
  refine ⟨⟨(e.resize n).lengthProperty, .number (.ofNat n), ?_, rfl,
      .inr ⟨array, rfl, m, .ofNat n, rfl, rfl, equal⟩⟩, fun {j} hj apart => ?_,
    fun {e₀} ho₀ => ?_, fun none => ?_, rfl, rfl, .inl rfl⟩
  · rw [getOwn_of_not_index rfl index, if_pos rfl]
  · refine getOwn_of_elements ho (fun i hi => ?_) fun length => absurd length hj
    exact absurd ⟨array, .inr ⟨rfl, by simp [hi]⟩⟩ apart
  · cases ho.symm.trans ho₀
    refine ⟨_, rfl, fun {i} hi => ?_, fun _ =>
      ⟨n, ⟨bound, m, rfl, equal⟩, e.cutAt_resize n⟩, fun _ ne => ?_⟩
    · cases index.symm.trans hi
    · exact absurd rfl ne
  · rw [none] at array
    cases array

theorem written_put {p : Property} (hk : o.place k = .entry) (hp : p.value? = some v) :
    o.Written k v (o.put k p) := by
  refine ⟨⟨p, v, getOwn_put_self hk p, hp, .inl rfl⟩, fun {j} hj _ => getOwn_put_of_ne o p hj,
    fun {e} ho => ⟨e, ho, fun {i} hi => ?_, fun length => ?_, fun _ _ => rfl⟩, fun _ => rfl, rfl,
    rfl, ?_⟩
  · cases hi.symm.trans (place_eq_entry_iff.1 hk e ho).1
  · exact absurd length (place_eq_entry_iff.1 hk e ho).2
  · have own : o.getOwn k = o.table.find? k := by rw [getOwn, hk]
    cases present : o.table.find? k with
    | none => exact .inr ⟨own.trans present, Table.keys_put_of_absent p present⟩
    | some q => exact .inl (Table.keys_put_of_present p (Option.isSome_of_mem present))

theorem written_of_define (hv : d.value = some v) (hd : d.isAccessor = false)
    (h : o.define k d = .ok o') : o.Written k v o' := by
  cases hk : o.place k with
  | element e i =>
      obtain ⟨ho, hi⟩ := of_place_eq_element hk
      obtain ⟨rfl, bound⟩ := Key.index?_eq_some_iff.1 hi
      rw [define_index ho bound, if_neg (by simp [hd])] at h
      split at h
      · cases h
      · cases h
        rw [hv]
        exact written_element ho bound
  | length e =>
      obtain ⟨ho, rfl⟩ := of_place_eq_length hk
      rw [define_length ho hv] at h
      split at h
      · next n hn =>
        cases h
        exact written_length ho (Value.measures_iff.1 hn)
      · cases h
  | entry =>
      rcases define_cases h with ⟨_, _, _, entry, _⟩ | ⟨_, _, _, rfl⟩ | ⟨p, _, _, rfl⟩
      · exact absurd hk entry
      · refine written_put hk ?_
        simp [Property.value?, Property.ofDescriptor, hd, hv]
      · refine written_put hk ?_
        obtain ⟨slot, _, _⟩ := p
        cases slot <;>
          simp [Property.value?, Property.merged, Slot.formed, Slot.updated, Descriptor.isData,
            Slot.isAccessor, hd, hv]

/-- Nothing of the object forbids that a value is assigned to it. -/
structure Accepts (o : Object κ) (k : Key) (v : Value) : Prop where
  writable {p : Property} : o.getOwn k = some p → ∃ x, p.slot = .data x true
  room : o.getOwn k = none → o.extensible = true
  length {e : Elements} : o.kind = .array e → k = .length → ∃ n, v.Measures n

theorem isAccessor_assignment (o : Object κ) (k : Key) (v : Value) :
    (o.assignment k v).isAccessor = false := by
  unfold assignment
  split <;> rfl

theorem value_assignment (o : Object κ) (k : Key) (v : Value) :
    (o.assignment k v).value = some v := by
  unfold assignment
  split <;> rfl

theorem Assigned.of_define {p : Property} {x : Value}
    (h : o.define k (o.assignment k v) = .ok o') (own : o'.getOwn k = some p)
    (slot : p.slot = .data x true) (enumerable : p.enumerable = (o.getOwn k).all (·.enumerable))
    (configurable : p.configurable = (o.getOwn k).all (·.configurable)) : o.Assigned k v o' := by
  refine ⟨written_of_define (value_assignment o k v) (isAccessor_assignment o k v) h,
    fun {q} hq => ?_⟩
  cases own.symm.trans hq
  exact ⟨⟨x, slot⟩, enumerable, configurable⟩

theorem assign_element {e : Elements} {i : Nat} (ho : o.kind = .array e) (hi : i ≤ Key.maxIndex)
    (accepts : o.Accepts (.ofIndex i) v) :
    ∃ o', o.define (.ofIndex i) (o.assignment (.ofIndex i) v) = .ok o' ∧
      o.Assigned (.ofIndex i) v o' := by
  have index : (Key.ofIndex i).index? = some i := Key.index?_eq_some_iff.2 ⟨rfl, hi⟩
  have own := getOwn_of_index ho index
  have room : ¬ ((e.get? i).isNone && !o.extensible) = true := by
    cases present : e.get? i with
    | none => simp [accepts.room (by rw [own, present]; rfl)]
    | some x => simp
  have defined : o.define (.ofIndex i) (o.assignment (.ofIndex i) v) =
      .ok { o with kind := .array (e.put i v) } := by
    rw [define_index ho hi, if_neg (by simp [isAccessor_assignment]), if_neg room,
      value_assignment]
    rfl
  -- Elements have all attributes, those that there were and new ones alike.
  refine ⟨_, defined, .of_define (p := .data v) defined ?_ rfl ?_ ?_⟩
  · rw [getOwn_of_index rfl index, Elements.get?_put_self]
    rfl
  · rw [own]
    cases e.get? i <;> rfl
  · rw [own]
    cases e.get? i <;> rfl

theorem assign_length {e : Elements} (ho : o.kind = .array e) (accepts : o.Accepts .length v) :
    ∃ o', o.define .length (o.assignment .length v) = .ok o' ∧ o.Assigned .length v o' := by
  obtain ⟨n, measures⟩ := accepts.length ho rfl
  have index : Key.length.index? = none := by decide
  have own : o.getOwn .length = some e.lengthProperty := by
    rw [getOwn_of_not_index ho index, if_pos rfl]
  have defined : o.define .length (o.assignment .length v) =
      .ok { o with kind := .array (e.resize n) } := by
    rw [define_length ho (value_assignment ..), Value.measures_iff.2 measures]
  refine ⟨_, defined, .of_define (p := (e.resize n).lengthProperty) defined ?_ rfl ?_ ?_⟩
  · rw [getOwn_of_not_index rfl index, if_pos rfl]
  · rw [own]
    rfl
  · rw [own]
    rfl

theorem assign_entry (hk : o.place k = .entry) (accepts : o.Accepts k v) :
    ∃ o', o.define k (o.assignment k v) = .ok o' ∧ o.Assigned k v o' := by
  have own : o.getOwn k = o.table.find? k := by rw [getOwn, hk]
  cases present : o.getOwn k with
  | none =>
      have defined : o.define k (o.assignment k v) = .ok (o.put k (.data v)) := by
        simp only [define, hk, defineEntry, own.symm.trans present, assignment, present]
        rw [if_pos (accepts.room present)]
        rfl
      refine ⟨_, defined, .of_define defined (getOwn_put_self hk _) rfl ?_ ?_⟩
      · rw [present]
        rfl
      · rw [present]
        rfl
  | some p =>
      obtain ⟨x, slot⟩ := accepts.writable present
      obtain ⟨_, enumerable, configurable⟩ := p
      cases slot
      have defined : o.define k (o.assignment k v) =
          .ok (o.put k ⟨.data v true, enumerable, configurable⟩) := by
        rw [define_of_hasEntry ⟨hk, own.symm.trans present⟩]
        simp only [assignment, present]
        cases configurable <;> rfl
      refine ⟨_, defined, .of_define defined (getOwn_put_self hk _) rfl ?_ ?_⟩
      · rw [present]
        rfl
      · rw [present]
        rfl

theorem define_assignment (accepts : o.Accepts k v) :
    ∃ o', o.define k (o.assignment k v) = .ok o' ∧ o.Assigned k v o' := by
  cases hk : o.place k with
  | element e i =>
      obtain ⟨ho, hi⟩ := of_place_eq_element hk
      obtain ⟨rfl, bound⟩ := Key.index?_eq_some_iff.1 hi
      exact assign_element ho bound accepts
  | length e =>
      obtain ⟨ho, rfl⟩ := of_place_eq_length hk
      exact assign_length ho accepts
  | entry => exact assign_entry hk accepts

end Object

/-! ## What an assignment does -/

/-- Why an assignment fails that no setter takes over: for what is nearest on the chain, or for what
the receiver is. -/
inductive Heap.Forbids (h : Heap κ) (nearest : Option Property) (k : Key) (v : Value) :
    Value → Prop
  | readOnly {p : Property} {x receiver : Value} (found : nearest = some p)
      (slot : p.slot = .data x false) : Forbids h nearest k v receiver
  | getterOnly {p : Property} {getter : Option ObjectId} {receiver : Value}
      (found : nearest = some p) (slot : p.slot = .accessor getter none) :
      Forbids h nearest k v receiver
  | primitive {receiver : Value} (none : receiver.object? = none) : Forbids h nearest k v receiver
  | ownAccessor {target : ObjectId} {p : Property} (own : (h.get target).getOwn k = some p)
      (functions : p.isAccessor = true) : Forbids h nearest k v (.object target)
  | ownReadOnly {target : ObjectId} {p : Property} {x : Value}
      (own : (h.get target).getOwn k = some p) (slot : p.slot = .data x false) :
      Forbids h nearest k v (.object target)
  | noRoom {target : ObjectId} (absent : (h.get target).getOwn k = none)
      (fixed : (h.get target).extensible = false) : Forbids h nearest k v (.object target)
  | length {target : ObjectId} {e : Elements} (array : (h.get target).kind = .array e)
      (key : k = .length) (none : ∀ n, ¬ v.Measures n) : Forbids h nearest k v (.object target)

/-- The run assigns a value to an object, and changes nothing else. -/
def Run.Assigns (x : Run κ σ Unit) (w : World κ σ) (target : ObjectId) (k : Key) (v : Value) :
    Prop :=
  w.heap.contains target = true ∧ ∃ object, (w.heap.get target).Assigned k v object ∧
    x w = .value () { w with heap := w.heap.set target object }

section
variable {exec : Exec κ σ} {w : World κ σ} {o target : ObjectId} {k : Key} {v receiver : Value}
  {nearest : Option Property}

theorem Heap.accepts_of_not_forbids {h : Heap κ}
    (free : ¬ h.Forbids nearest k v (.object target)) : (h.get target).Accepts k v := by
  refine ⟨fun {p} own => ?_, fun absent => ?_, fun {e} array key => ?_⟩
  · cases slot : p.slot with
    | data x writable =>
        cases writable with
        | true => exact ⟨x, rfl⟩
        | false => exact absurd (.ownReadOnly own slot) free
    | accessor getter setter =>
        exact absurd (.ownAccessor own (by simp [Property.isAccessor, slot, Slot.isAccessor])) free
  · exact eq_true_of_ne_false fun fixed => free (.noRoom absent fixed)
  · by_contra none
    exact free (.length array key (not_exists.1 none))

theorem Member.store_assigns (accepts : (w.heap.get target).Accepts k v) :
    (Member.store (.object target) k v).Assigns w target k v := by
  obtain ⟨object, defined, assigned⟩ := Object.define_assignment accepts
  refine ⟨Heap.contains_of_define defined, object, assigned, ?_⟩
  rw [← Run.change_of_ok (f := (·.define k _)) defined, Member.store, Run.viewHeap_bind]
  unfold Object.assignment
  cases own : (w.heap.get target).getOwn k with
  | none => rfl
  | some p =>
      obtain ⟨x, slot⟩ := accepts.writable own
      rw [Option.map_some, slot]
      rfl

theorem Heap.Forbids.store_refuses (forbids : w.heap.Forbids nearest k v receiver)
    (free : ∀ p, nearest = some p → ∃ x, p.slot = .data x true) :
    (Member.store (σ := σ) receiver k v).Refuses w w := by
  cases forbids with
  | readOnly found slot =>
      obtain ⟨x, writable⟩ := free _ found
      cases slot.symm.trans writable
  | getterOnly found slot =>
      obtain ⟨x, writable⟩ := free _ found
      cases slot.symm.trans writable
  | primitive none =>
      cases receiver with
      | object => cases none
      | _ => exact ⟨_, rfl, rfl⟩
  | @ownAccessor target p own functions =>
      refine .after (a := w.heap.get target) rfl ?_
      obtain ⟨slot, _, _⟩ := p
      cases slot with
      | data => cases functions
      | accessor =>
          rw [own]
          exact ⟨_, rfl, rfl⟩
  | @ownReadOnly target p x own slot =>
      refine .after (a := w.heap.get target) rfl ?_
      rw [own, Option.map_some, slot]
      exact ⟨_, rfl, rfl⟩
  | @noRoom target absent fixed =>
      refine .after (a := w.heap.get target) rfl ?_
      rw [absent]
      exact refuses_define fixed absent _
  | @length target e array key none =>
      subst key
      refine .after (a := w.heap.get target) rfl ?_
      have own : (w.heap.get target).getOwn .length = some e.lengthProperty := by
        rw [Object.getOwn_of_not_index array (by decide), if_pos rfl]
      have refused := Object.define_length array (d := .onlyValue v) rfl
      rw [Option.eq_none_iff_forall_ne_some.2 fun n same => none n (Value.measures_iff.1 same)]
        at refused
      rw [own]
      exact ⟨.invalidLength, rfl, Run.change_of_error (f := (·.define .length _)) refused⟩

theorem Run.discard_congr {α : Type} {x y : Run κ σ α} (h : x w = y w) :
    (discard x) w = (discard y) w :=
  Run.map_congr h

theorem Member.set_calls {p : Property} {getter : Option ObjectId} {setter : ObjectId}
    (found : w.heap.find o k = some p) (slot : p.slot = .accessor getter (some setter)) :
    (∀ body, (w.heap.get setter).body? = some body →
      Member.set exec o k v receiver w = (discard (exec body (.call receiver [v]))) w) ∧
    ((w.heap.get setter).body? = none → (Member.set exec o k v receiver).Refuses w w) := by
  have taken : Member.set exec o k v receiver w = (discard (call exec setter receiver [v])) w := by
    rw [Member.set, Run.viewHeap_bind, Heap.findSlot, found, Option.map_some, slot]
  refine ⟨fun body callable => ?_, fun none => ⟨.notCallable, rfl, ?_⟩⟩
  · have called : call exec setter receiver [v] w = exec body (.call receiver [v]) w := by
      rw [call, Run.viewHeap_bind, callable]
    exact taken.trans (Run.discard_congr called)
  · have failed : call exec setter receiver [v] w = .fault .notCallable w := by
      rw [call, Run.viewHeap_bind, none]
      rfl
    exact taken.trans (Run.bind_of_fault failed)

section
variable (noSetter : ∀ p getter setter, w.heap.find o k = some p →
  p.slot ≠ .accessor getter (some setter))
include noSetter

theorem Member.set_refuses (forbids : w.heap.Forbids (w.heap.find o k) k v receiver) :
    (Member.set exec o k v receiver).Refuses w w := by
  refine .after (a := w.heap.findSlot o k) rfl ?_
  rw [Heap.findSlot]
  cases found : w.heap.find o k with
  | none =>
      refine forbids.store_refuses fun p hp => ?_
      cases found.symm.trans hp
  | some p =>
      rw [Option.map_some]
      cases slot : p.slot with
      | data x writable =>
          cases writable with
          | true =>
              refine forbids.store_refuses fun q hq => ⟨x, ?_⟩
              cases found.symm.trans hq
              exact slot
          | false => exact ⟨_, rfl, rfl⟩
      | accessor getter setter =>
          cases setter with
          | none => exact ⟨_, rfl, rfl⟩
          | some setter => exact absurd slot (noSetter p getter setter found)

theorem Heap.assignable_of_not_forbids
    (free : ¬ w.heap.Forbids (w.heap.find o k) k v receiver) : w.heap.Assignable o k := by
  intro slot found
  obtain ⟨p, hp, rfl⟩ := Option.map_eq_some_iff.1 found
  cases slot : p.slot with
  | data x writable =>
      cases writable with
      | true => exact ⟨x, rfl⟩
      | false => exact absurd (.readOnly hp slot) free
  | accessor getter setter =>
      cases setter with
      | none => exact absurd (.getterOnly hp slot) free
      | some setter => exact absurd slot (noSetter p getter setter hp)

theorem Member.set_assigns (free : ¬ w.heap.Forbids (w.heap.find o k) k v receiver) :
    ∃ target, receiver = .object target ∧
      (Member.set exec o k v receiver).Assigns w target k v := by
  cases receiver with
  | object target =>
      obtain ⟨held, object, assigned, stored⟩ :=
        Member.store_assigns (σ := σ) (w := w) (Heap.accepts_of_not_forbids free)
      refine ⟨target, rfl, held, object, assigned, ?_⟩
      rw [← stored, Member.set, Run.viewHeap_bind]
      have assignable := Heap.assignable_of_not_forbids noSetter free
      cases found : w.heap.findSlot o k with
      | none => rfl
      | some slot =>
          obtain ⟨x, rfl⟩ := assignable slot found
          rfl
  | _ => exact absurd (.primitive rfl) free

end

end

/-- In every reached world, assignment goes by the property that a walk up the prototypes of `o`
comes to first.  If that has a setter, the setter runs, with the receiver and the value, and nothing
else does: its effects are those of the assignment, and so is its fault.  Otherwise an assignment is
refused, and nothing changes, where that property or the receiver forbids it; and where they do not,
the receiver gets an own data property with the value, and nothing else changes. -/
theorem World.Reached.set_ordinary {w : World κ σ} (hw : w.Reached) (exec : Exec κ σ) (n : Nat)
    (o : ObjectId) (k : Key) (v receiver : Value) :
    ∃ nearest, w.heap.Walk (fun q => (w.heap.get q).getOwn k) (some o) nearest ∧
      (∀ p getter setter, nearest = some p → p.slot = .accessor getter (some setter) →
        (∀ body, (w.heap.get setter).body? = some body →
          perform exec n (.set o k v receiver) w = (discard (exec body (.call receiver [v]))) w) ∧
        ((w.heap.get setter).body? = none →
          (perform exec n (.set o k v receiver)).Refuses w w)) ∧
      ((∀ p getter setter, nearest = some p → p.slot ≠ .accessor getter (some setter)) →
        (w.heap.Forbids nearest k v receiver →
          (perform exec n (.set o k v receiver)).Refuses w w) ∧
        (¬ w.heap.Forbids nearest k v receiver → ∃ target, receiver = .object target ∧
          (perform exec n (.set o k v receiver)).Assigns w target k v)) := by
  refine ⟨w.heap.find o k, ?_, fun p getter setter found slot => Member.set_calls found slot,
    fun noSetter => ⟨Member.set_refuses noSetter, Member.set_assigns noSetter⟩⟩
  rw [hw.grounded.walk_iff, Heap.find_eq_findSome?, Option.elim_some]

/-- Through an object without a length, negative zero empties an array, and a text is refused. -/
theorem World.Reached.set_ordinary_length :
    ∃ w : World Unit Unit, w.Reached ∧ (w.heap.get ⟨0⟩).getOwn .length = none ∧
      (w.heap.get ⟨1⟩).elements?.map Elements.length = some 1 ∧
      (perform (fun _ _ => Run.exhausted) 0
        (.set ⟨0⟩ .length (.number .negativeZero) (.object ⟨1⟩))).Assigns w ⟨1⟩ .length
          (.number .negativeZero) ∧
      (perform (fun _ _ => Run.exhausted) 0
        (.set ⟨0⟩ .length (.string "0") (.object ⟨1⟩))).Refuses w w := by
  obtain ⟨w, reached, facts⟩ := World.exists_reached (fun _ _ => .done (.ok .null)) 0
    (.ask (.newObject none) fun _ => .ask (.newArray [.null] none) fun _ =>
      .ask .newKey fun _ => .done (.ok .null))
    (.initial id) () (fun w : World Unit Unit => (w.heap.find ⟨0⟩ .length,
      (w.heap.get ⟨0⟩).getOwn .length, (w.heap.get ⟨1⟩).elements?.map Elements.length))
    (show _ = some (none, none, some 1) by decide +kernel)
  simp only [Prod.mk.injEq] at facts
  obtain ⟨found, own, length⟩ := facts
  obtain ⟨e, elements, -⟩ := Option.map_eq_some_iff.1 length
  have array := Object.elements?_eq_some_iff.1 elements
  have writable : (w.heap.get ⟨1⟩).getOwn .length = some e.lengthProperty := by
    rw [Object.getOwn_of_not_index array (by decide), if_pos rfl]
  have chosen {nearest : Option Property}
      (walk : w.heap.Walk (fun q => (w.heap.get q).getOwn .length) (some ⟨0⟩) nearest) :
      nearest = none := by
    rw [reached.grounded.walk_iff, Option.elim_some, ← Heap.find_eq_findSome?, found] at walk
    exact walk.symm
  obtain ⟨nearest, walk, -, decides⟩ := reached.set_ordinary (fun _ _ => Run.exhausted) 0 ⟨0⟩
    .length (.number .negativeZero) (.object ⟨1⟩)
  obtain rfl := chosen walk
  obtain ⟨target, ⟨⟩, assigns⟩ := (decides nofun).2 fun forbids => by
    cases forbids with
    | readOnly found => cases found
    | getterOnly found => cases found
    | primitive none => cases none
    | ownAccessor own functions =>
        cases writable.symm.trans own
        cases functions
    | ownReadOnly own slot =>
        cases writable.symm.trans own
        cases slot
    | noRoom absent => cases writable.symm.trans absent
    | length _ _ none => exact none 0 (Value.measures_iff.1 (by decide))
  obtain ⟨nearest, walk, -, decides⟩ := reached.set_ordinary (fun _ _ => Run.exhausted) 0 ⟨0⟩
    .length (.string "0") (.object ⟨1⟩)
  obtain rfl := chosen walk
  exact ⟨w, reached, own, length, assigns,
    (decides nofun).1 (.length array rfl fun _ ⟨_, _, text, _⟩ => nomatch text)⟩

end Prototypal
