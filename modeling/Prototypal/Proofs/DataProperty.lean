import Prototypal.Call
import Prototypal.Proofs.Entry

/-!
# Data properties

Reading a data property runs nothing, and a definition by a value alone gives a data property with
that value.  Of the other objects a definition leaves all as they are.
-/

namespace Prototypal

variable {κ σ : Type}

/-! ## What stays as it is -/

/-- Some objects stay as they are, and none goes away. -/
structure Heap.Leaves (S : ObjectId → Prop) (h h' : Heap κ) : Prop where
  size : h.size ≤ h'.size
  get {o : ObjectId} : S o → h'.get o = h.get o

namespace Heap.Leaves

variable {S T : ObjectId → Prop} {h h' h'' : Heap κ}

theorem refl (S : ObjectId → Prop) (h : Heap κ) : h.Leaves S h := ⟨Nat.le_refl _, fun _ => rfl⟩

theorem contains (l : h.Leaves S h') {o : ObjectId} (ho : h.contains o = true) :
    h'.contains o = true :=
  contains_iff.2 (Nat.lt_of_lt_of_le (contains_iff.1 ho) l.size)

theorem mono (l : h.Leaves S h') (hs : ∀ o, T o → S o) : h.Leaves T h' :=
  ⟨l.size, fun ho => l.get (hs _ ho)⟩

theorem trans (l : h.Leaves S h') (l' : h'.Leaves S h'') : h.Leaves S h'' :=
  ⟨Nat.le_trans l.size l'.size, fun ho => (l'.get ho).trans (l.get ho)⟩

theorem set (h : Heap κ) (o : ObjectId) (object : Object κ) : h.Leaves (· ≠ o) (h.set o object) :=
  ⟨Nat.le_of_eq (size_set ..).symm, fun ho => get_set_of_ne _ _ ho⟩

theorem allocate (h : Heap κ) (object : Object κ) :
    h.Leaves (h.contains · = true) (h.allocate object).2 :=
  ⟨by simp, fun ho => get_allocate_of_contains _ ho⟩

end Heap.Leaves

theorem Heap.contains_of_isCallable {h : Heap κ} {o : ObjectId}
    (ho : (h.get o).isCallable = true) : h.contains o = true :=
  contains_of_ne_inert fun inert => by
    rw [inert] at ho
    cases ho

/-- A function is no ordinary object. -/
theorem Heap.ne_of_isCallable {h : Heap κ} {o p : ObjectId} (ho : (h.get o).isCallable = true)
    (hp : (h.get p).kind = .ordinary) : o ≠ p := by
  rintro rfl
  simp [Object.isCallable, Object.body?, hp] at ho

/-! ## Properties and objects -/

/-- The value of a data property. -/
def Property.value? (p : Property) : Option Value :=
  match p.slot with
  | .data v _ => some v
  | .accessor _ _ => none

/-- What a definition by a value alone makes of a property, or of none: attributes stay, and new
ones are off. -/
def Property.withValue (old : Option Property) (v : Value) : Property :=
  match old with
  | none => .ofDescriptor (.onlyValue v)
  | some p => p.merged (.onlyValue v)

@[simp]
theorem Property.value?_withValue (old : Option Property) (v : Value) :
    (withValue old v).value? = some v := by
  match old with
  | none => rfl
  | some ⟨.data _ _, _, _⟩ => rfl
  | some ⟨.accessor _ _, _, _⟩ => rfl

theorem Property.isAccessor_of_value? {p : Property} {v : Value} (h : p.value? = some v) :
    p.isAccessor = false := by
  obtain ⟨slot, enumerable, configurable⟩ := p
  cases slot with
  | data => rfl
  | accessor => cases h

theorem Property.exists_value {p : Property} (h : p.isAccessor = false) :
    ∃ v, p.value? = some v := by
  obtain ⟨slot, enumerable, configurable⟩ := p
  cases slot with
  | data v => exact ⟨v, rfl⟩
  | accessor => cases h

namespace Object

/-- The object has data properties only. -/
def Plain (o : Object κ) : Prop := ∀ k p, o.getOwn k = some p → p.isAccessor = false

/-- The object with a property in its table. -/
def put (o : Object κ) (k : Key) (p : Property) : Object κ := { o with table := o.table.put k p }

theorem getOwn_put_self {o : Object κ} {k : Key} (hk : o.place k = .entry) (p : Property) :
    (o.put k p).getOwn k = some p := by
  rw [getOwn, show (o.put k p).place k = .entry from hk]
  exact Table.find?_put_self ..

theorem getOwn_put_of_ne (o : Object κ) {j k : Key} (p : Property) (hj : j ≠ k) :
    (o.put k p).getOwn j = o.getOwn j := by
  rw [getOwn, getOwn, show (o.put k p).place j = o.place j from rfl]
  split
  · rfl
  · rfl
  · exact Table.find?_put_of_ne _ _ hj

/-- What a definition by a value alone does under the key of an entry. -/
theorem define_onlyValue_of_entry {o object : Object κ} {k : Key} {v : Value}
    (hk : o.place k = .entry) (h : o.define k (.onlyValue v) = .ok object) :
    object = o.put k (.withValue (o.getOwn k) v) := by
  have own : o.getOwn k = o.table.find? k := by rw [getOwn, hk]
  rcases define_cases h with ⟨_, _, _, entry, _⟩ | ⟨_, absent, _, rfl⟩ | ⟨p, hp, _, rfl⟩
  · exact absurd hk entry
  · rw [own, absent]
    rfl
  · rw [hp.getOwn]
    rfl

/-- What it does to an object that is not an array. -/
theorem define_onlyValue {o object : Object κ} {k : Key} {v : Value} (ho : o.elements? = none)
    (h : o.define k (.onlyValue v) = .ok object) : ∃ p, p.value? = some v ∧ object = o.put k p :=
  ⟨_, Property.value?_withValue .., define_onlyValue_of_entry (place_of_not_array ho k) h⟩

theorem Plain.put {o : Object κ} {k : Key} {p : Property} {v : Value} (ho : o.elements? = none)
    (h : o.Plain) (hp : p.value? = some v) : (o.put k p).Plain := by
  intro j q hq
  by_cases hj : j = k
  · subst hj
    cases (getOwn_put_self (place_of_not_array ho j) p).symm.trans hq
    exact p.isAccessor_of_value? hp
  · exact h j q ((o.getOwn_put_of_ne p hj).symm.trans hq)

end Object

/-! ## Definitions and reads in the world -/

variable {exec : Exec κ σ} {w w' : World κ σ}

/-- What a definition by a value alone does in the world. -/
theorem Run.define_onlyValue {o : ObjectId} {k : Key} {v : Value}
    (ho : (w.heap.get o).elements? = none)
    (h : Run.change o (·.define k (.onlyValue v)) w = .value () w') :
    w.heap.contains o = true ∧ w.heap.Leaves (· ≠ o) w'.heap ∧ ∃ p, p.value? = some v ∧
      w'.heap.get o = (w.heap.get o).put k p := by
  obtain ⟨object, defined, rfl⟩ := Run.change_eq_value h
  have held := Heap.contains_of_define defined
  obtain ⟨p, hp, rfl⟩ := Object.define_onlyValue ho defined
  exact ⟨held, .set .., p, hp, Heap.get_set_self _ held⟩

/-- A data property, or none, is read without running anything. -/
theorem Member.get_of_plain {o : ObjectId} {k : Key}
    (h : ∀ p, w.heap.find o k = some p → p.isAccessor = false) (receiver : Value) :
    Member.get exec o k receiver w =
      .value (((w.heap.find o k).bind Property.value?).getD .undefined) w := by
  unfold Member.get
  rw [Run.viewHeap_bind, Heap.findSlot]
  cases hp : w.heap.find o k with
  | none => rfl
  | some p =>
      obtain ⟨slot, enumerable, configurable⟩ := p
      cases slot with
      | data v writable => rfl
      | accessor => cases h _ hp

theorem Member.get_of_own {o : ObjectId} {k : Key} {v : Value}
    (h : ((w.heap.get o).getOwn k).bind Property.value? = some v) (receiver : Value) :
    Member.get exec o k receiver w = .value v w := by
  obtain ⟨p, hp, hv⟩ := Option.bind_eq_some_iff.1 h
  have found := Heap.find_of_own hp
  rw [Member.get_of_plain, found, Option.bind_some, hv, Option.getD_some]
  intro q hq
  cases found.symm.trans hq
  exact p.isAccessor_of_value? hv

end Prototypal
