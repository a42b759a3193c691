import Prototypal.Proofs.HeapStep

/-!
# Properties in the table

Elements and the length of an array have their own places; every other property is an entry of the
table.  An entry that is not configurable stays, and changes only by a definition that it admits.
-/

namespace Prototypal

variable {κ α β : Type}

theorem except_map_eq_ok_iff {f : α → β} {e : Except Fault α} {b : β} :
    e.map f = .ok b ↔ ∃ a, e = .ok a ∧ f a = b := by
  cases e <;> simp [Except.map]

theorem except_map_eq_error_iff {f : α → β} {e : Except Fault α} {fault : Fault} :
    e.map f = .error fault ↔ e = .error fault := by
  cases e <;> simp [Except.map]

namespace Object

/-- The object has a property in its table, where lookup under the key finds it. -/
def HasEntry (o : Object κ) (k : Key) (p : Property) : Prop :=
  o.place k = .entry ∧ o.table.find? k = some p

theorem place_eq_entry_iff {o : Object κ} {k : Key} :
    o.place k = .entry ↔ ∀ elements, o.kind = .array elements → k.index? = none ∧ k ≠ .length := by
  unfold place
  cases o.kind with
  | ordinary => simp
  | function => simp
  | array elements => cases k.index? <;> simp

/-- Where a key belongs does not change as long as an array stays an array. -/
theorem place_eq_entry_of_array {o : Object κ} {k : Key} {old : Elements} (new : Elements)
    (ho : o.kind = .array old) (hk : o.place k = .entry) :
    ({ o with kind := .array new } : Object κ).place k = .entry :=
  place_eq_entry_iff.2 fun _ _ => place_eq_entry_iff.1 hk old ho

theorem elements?_eq_some_iff {o : Object κ} {elements : Elements} :
    o.elements? = some elements ↔ o.kind = .array elements := by
  unfold elements?
  cases o.kind <;> simp

theorem kind_of_place_ne_entry {o : Object κ} {k : Key} (hk : o.place k ≠ .entry) :
    ∃ elements, o.kind = .array elements := by
  unfold place at hk
  split at hk
  · exact ⟨_, ‹_›⟩
  · exact absurd rfl hk

theorem of_place_eq_element {o : Object κ} {k : Key} {elements : Elements} {i : Nat}
    (h : o.place k = .element elements i) : o.kind = .array elements ∧ k.index? = some i := by
  unfold place at h
  split at h
  · split at h
    · cases h
      exact ⟨‹_›, ‹_›⟩
    · split at h <;> cases h
  · cases h

theorem of_place_eq_length {o : Object κ} {k : Key} {elements : Elements}
    (h : o.place k = .length elements) : o.kind = .array elements ∧ k = .length := by
  unfold place at h
  split at h
  · split at h
    · cases h
    · split at h
      · cases h
        exact ⟨‹_›, ‹_›⟩
      · cases h
  · cases h

theorem HasEntry.getOwn {o : Object κ} {k : Key} {p : Property} (h : o.HasEntry k p) :
    o.getOwn k = some p := by
  rw [Object.getOwn, h.1]
  exact h.2

/-- Accessors are never elements and never the length of an array. -/
theorem hasEntry_of_isAccessor {o : Object κ} {k : Key} {p : Property} (h : o.getOwn k = some p)
    (hp : p.isAccessor = true) : o.HasEntry k p := by
  unfold Object.getOwn at h
  split at h
  · obtain ⟨v, -, rfl⟩ := Option.map_eq_some_iff.1 h
    cases hp
  · cases h
    cases hp
  · exact ⟨‹_›, h⟩

/-! ## Objects that are not arrays -/

theorem place_of_not_array {o : Object κ} (h : o.elements? = none) (k : Key) :
    o.place k = .entry := by
  unfold place
  unfold elements? at h
  split
  · next hk => simp [hk] at h
  · rfl

theorem getOwn_of_not_array {o : Object κ} (h : o.elements? = none) (k : Key) :
    o.getOwn k = o.table.find? k := by
  rw [getOwn, place_of_not_array h]

theorem ownKeys_of_not_array {o : Object κ} (h : o.elements? = none) :
    o.ownKeys = o.table.keys := by
  unfold ownKeys
  unfold elements? at h
  split
  · next hk => simp [hk] at h
  · rfl

theorem isCallable_of_kind {o o' : Object κ} (h : o.kind = o'.kind) :
    o.isCallable = o'.isCallable := by
  simp [isCallable, body?, h]

theorem elements?_of_isCallable {o : Object κ} (h : o.isCallable = true) : o.elements? = none := by
  unfold isCallable body? at h
  unfold elements?
  split at h <;> simp_all

/-! ## Changes of an object -/

/-- A definition changes the elements or the length of an array, or one entry. -/
theorem define_cases {o object : Object κ} {k : Key} {d : Descriptor}
    (h : o.define k d = .ok object) :
    (∃ old new, o.kind = .array old ∧ o.place k ≠ .entry ∧
      object = { o with kind := .array new }) ∨
    (o.place k = .entry ∧ o.table.find? k = none ∧ o.extensible = true ∧
      object = { o with table := o.table.put k (.ofDescriptor d) }) ∨
    (∃ p, o.HasEntry k p ∧ p.admits d = true ∧
      object = { o with table := o.table.put k (p.merged d) }) := by
  unfold define at h
  split at h
  · next hk =>
    obtain ⟨new, -, rfl⟩ := except_map_eq_ok_iff.1 h
    obtain ⟨old, ho⟩ := kind_of_place_ne_entry (o := o) (k := k) (by simp [hk])
    exact .inl ⟨old, new, ho, by simp [hk], rfl⟩
  · next hk =>
    obtain ⟨new, -, rfl⟩ := except_map_eq_ok_iff.1 h
    obtain ⟨old, ho⟩ := kind_of_place_ne_entry (o := o) (k := k) (by simp [hk])
    exact .inl ⟨old, new, ho, by simp [hk], rfl⟩
  · next hk =>
    obtain ⟨table, ht, rfl⟩ := except_map_eq_ok_iff.1 h
    unfold defineEntry at ht
    split at ht
    · next absent =>
      split at ht
      · cases ht
        exact .inr (.inl ⟨hk, absent, ‹_›, rfl⟩)
      · cases ht
    · next p present =>
      split at ht
      · cases ht
        exact .inr (.inr ⟨p, ⟨hk, present⟩, ‹_›, rfl⟩)
      · cases ht

/-- Deletion changes the elements of an array, or drops a configurable entry, or changes nothing. -/
theorem delete_cases {o object : Object κ} {k : Key} (h : o.delete k = .ok object) :
    (∃ old new, o.kind = .array old ∧ object = { o with kind := .array new }) ∨
    (∃ p, o.HasEntry k p ∧ p.configurable = true ∧
      object = { o with table := o.table.erase k }) ∨
    object = o := by
  unfold delete at h
  split at h
  · next hk =>
    cases h
    obtain ⟨old, ho⟩ := kind_of_place_ne_entry (o := o) (k := k) (by simp [hk])
    exact .inl ⟨old, _, ho, rfl⟩
  · cases h
  · next hk =>
    split at h
    · next p hp =>
      split at h
      · cases h
        exact .inr (.inl ⟨p, ⟨hk, hp⟩, ‹_›, rfl⟩)
      · cases h
    · cases h
      exact .inr (.inr rfl)

/-- Appending changes the elements of an array. -/
theorem push_cases {o object : Object κ} {v : Value} {n : Nat} (h : o.push v = .ok (n, object)) :
    ∃ old new, o.kind = .array old ∧ object = { o with kind := .array new } := by
  unfold push at h
  split at h
  · next old ho =>
    split at h
    · cases h
    · cases h
      exact ⟨old, _, ho, rfl⟩
  · cases h

/-- What an object does when it is called does not change. -/
theorem body?_define {o object : Object κ} {k : Key} {d : Descriptor}
    (h : o.define k d = .ok object) : object.body? = o.body? := by
  rcases define_cases h with ⟨old, new, ho, -, rfl⟩ | ⟨-, -, -, rfl⟩ | ⟨-, -, -, rfl⟩
  · simp [body?, ho]
  · rfl
  · rfl

theorem body?_delete {o object : Object κ} {k : Key} (h : o.delete k = .ok object) :
    object.body? = o.body? := by
  rcases delete_cases h with ⟨old, new, ho, rfl⟩ | ⟨-, -, -, rfl⟩ | rfl
  · simp [body?, ho]
  · rfl
  · rfl

theorem body?_push {o object : Object κ} {v : Value} {n : Nat}
    (h : o.push v = .ok (n, object)) : object.body? = o.body? := by
  obtain ⟨old, new, ho, rfl⟩ := push_cases h
  simp [body?, ho]

/-- A definition under the key of an entry is merged into it or refused. -/
theorem define_of_hasEntry {o : Object κ} {k : Key} {p : Property} (hp : o.HasEntry k p)
    (d : Descriptor) :
    o.define k d = if p.admits d then .ok { o with table := o.table.put k (p.merged d) }
      else .error (.notRedefinable k) := by
  simp only [define, hp.1, defineEntry, hp.2]
  cases p.admits d <;> rfl

theorem delete_of_hasEntry {o : Object κ} {k : Key} {p : Property} (hp : o.HasEntry k p) :
    o.delete k = if p.configurable then .ok { o with table := o.table.erase k }
      else .error (.notDeletable k) := by
  simp only [delete, hp.1, hp.2]

/-! ## What happens to an entry -/

namespace HasEntry

variable {o object : Object κ} {k : Key} {p : Property}

theorem ofTable {table : Table} {q : Property} (h : o.HasEntry k p) (ht : table.find? k = some q) :
    ({ o with table } : Object κ).HasEntry k q := ⟨h.1, ht⟩

theorem ofKind {old : Elements} (new : Elements) (h : o.HasEntry k p) (ho : o.kind = .array old) :
    ({ o with kind := .array new } : Object κ).HasEntry k p :=
  ⟨place_eq_entry_of_array new ho h.1, h.2⟩

/-- A definition leaves an entry as it is or merges into it a descriptor that it admits. -/
theorem define {j : Key} {d : Descriptor} (h : o.HasEntry k p)
    (hd : o.define j d = .ok object) :
    object.HasEntry k p ∨ j = k ∧ p.admits d = true ∧ object.HasEntry k (p.merged d) := by
  rcases define_cases hd with ⟨old, new, ho, -, rfl⟩ | ⟨-, absent, -, rfl⟩ | ⟨q, hq, admits, rfl⟩
  · exact .inl (h.ofKind new ho)
  · have hj : k ≠ j := by
      rintro rfl
      cases h.2.symm.trans absent
    exact .inl (h.ofTable (by rw [Table.find?_put_of_ne _ _ hj, h.2]))
  · by_cases hj : j = k
    · subst hj
      cases h.2.symm.trans hq.2
      exact .inr ⟨rfl, admits, h.1, Table.find?_put_self ..⟩
    · exact .inl (h.ofTable (by rw [Table.find?_put_of_ne _ _ (Ne.symm hj), h.2]))

/-- Deletion leaves an entry as it is unless the entry is configurable. -/
theorem delete {j : Key} (h : o.HasEntry k p) (hp : p.configurable = false)
    (hd : o.delete j = .ok object) : object.HasEntry k p := by
  rcases delete_cases hd with ⟨old, new, ho, rfl⟩ | ⟨q, hq, hc, rfl⟩ | rfl
  · exact h.ofKind new ho
  · have hj : k ≠ j := by
      rintro rfl
      cases h.2.symm.trans hq.2
      cases hp.symm.trans hc
    exact h.ofTable (by rw [Table.find?_erase_of_ne _ hj, h.2])
  · exact h

theorem push {v : Value} {n : Nat} (h : o.HasEntry k p) (hv : o.push v = .ok (n, object)) :
    object.HasEntry k p := by
  obtain ⟨old, new, ho, rfl⟩ := push_cases hv
  exact h.ofKind new ho

end HasEntry

end Object

/-! ## What happens to an entry along the steps of the heap -/

namespace Heap

theorem get_set_cases (h : Heap κ) (o p : ObjectId) (object : Object κ) :
    (h.set o object).get p = h.get p ∨ p = o ∧ (h.set o object).get p = object := by
  by_cases hp : p = o
  · subst hp
    cases held : h.contains p with
    | true => exact .inr ⟨rfl, get_set_self object held⟩
    | false => exact .inl (by rw [set_of_not_contains object held])
  · exact .inl (get_set_of_ne h object hp)

/-- An object other than the inert one was made. -/
theorem contains_of_hasEntry {h : Heap κ} {o : ObjectId} {k : Key} {p : Property}
    (hp : (h.get o).HasEntry k p) : h.contains o = true :=
  contains_of_ne_inert fun inert => by
    rw [inert] at hp
    cases hp.2

/-- Nothing can be defined where there is no object. -/
theorem contains_of_define {h : Heap κ} {o : ObjectId} {k : Key} {d : Descriptor}
    {object : Object κ} (hd : (h.get o).define k d = .ok object) : h.contains o = true :=
  contains_of_ne_inert fun inert => by
    have absent : (Object.inert : Object κ).table.find? k = none := Table.find?_empty k
    rw [inert, Object.define, Object.place_of_not_array rfl, Object.defineEntry, absent] at hd
    cases hd

/-- A function does the same after every step. -/
theorem Step.body? {Defines : ObjectId → Key → Descriptor → Prop} {h h' : Heap κ}
    (s : Step Defines h h') {f : ObjectId} {body : Body κ} (hb : (h.get f).body? = some body) :
    (h'.get f).body? = some body := by
  have set {o : ObjectId} {object : Object κ} (same : object.body? = (h.get o).body?) :
      ((h.set o object).get f).body? = some body := by
    rcases get_set_cases h o f object with kept | ⟨rfl, new⟩
    · rw [kept, hb]
    · rw [new, same, hb]
  cases s with
  | define _ he => exact set (Object.body?_define he)
  | delete he => exact set (Object.body?_delete he)
  | push he => exact set (Object.body?_push he)
  | preventExtensions => exact set rfl
  | setPrototype => exact set rfl
  | allocate =>
      refine (congrArg Object.body? (get_allocate_of_contains _ ?_)).trans hb
      exact contains_of_ne_inert fun inert => by
        rw [inert] at hb
        cases hb

/-- A fixed entry survives every step, and only a definition that it admits changes it. -/
theorem Step.hasEntry {Defines : ObjectId → Key → Descriptor → Prop} {h h' : Heap κ}
    (s : Step Defines h h') {o : ObjectId} {k : Key} {p : Property}
    (hp : (h.get o).HasEntry k p) (hc : p.configurable = false) :
    (h'.get o).HasEntry k p ∨
      ∃ d, Defines o k d ∧ p.admits d = true ∧ (h'.get o).HasEntry k (p.merged d) := by
  have contained := contains_of_hasEntry hp
  -- Only a step of `o` itself matters.
  have other {q : ObjectId} {object : Object κ} (hq : o ≠ q) : ((h.set q object).get o) = h.get o :=
    get_set_of_ne h object hq
  cases s with
  | @define q j d object hd he =>
      by_cases hq : o = q
      · subst hq
        rw [get_set_self object contained]
        rcases hp.define he with hp | ⟨rfl, admits, hp⟩
        · exact .inl hp
        · exact .inr ⟨d, hd, admits, hp⟩
      · exact .inl (other hq ▸ hp)
  | @delete q j object he =>
      by_cases hq : o = q
      · subst hq
        exact .inl ((get_set_self object contained).symm ▸ hp.delete hc he)
      · exact .inl (other hq ▸ hp)
  | @push q v n object he =>
      by_cases hq : o = q
      · subst hq
        exact .inl ((get_set_self object contained).symm ▸ hp.push he)
      · exact .inl (other hq ▸ hp)
  | @preventExtensions q =>
      by_cases hq : o = q
      · subst hq
        exact .inl (get_set_self _ contained ▸ hp)
      · exact .inl (other hq ▸ hp)
  | @setPrototype q prototype =>
      by_cases hq : o = q
      · subst hq
        exact .inl (get_set_self _ contained ▸ hp)
      · exact .inl (other hq ▸ hp)
  | allocate => exact .inl (get_allocate_of_contains _ contained ▸ hp)

end Heap

end Prototypal
