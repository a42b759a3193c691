import Prototypal.Proofs.Entry
import Prototypal.Proofs.Index
import Prototypal.Proofs.Reached

/-!
# Where the parts of an array are

The keys of elements and of the length never get into the table of an array, and its elements fit.
So the own keys of an object are, each once, those under which it has a property.
-/

namespace Prototypal

variable {κ σ : Type}

/-! ## One object -/

namespace Object

theorem place_ofIndex {o : Object κ} {elements : Elements} {i : Nat}
    (ho : o.kind = .array elements) (hi : i ≤ Key.maxIndex) :
    o.place (.ofIndex i) = .element elements i := by
  simp only [place, ho, Key.index?_eq_some_iff.2 ⟨rfl, hi⟩]

theorem getOwn_ofIndex {o : Object κ} {elements : Elements} {i : Nat}
    (ho : o.kind = .array elements) (hi : i ≤ Key.maxIndex) :
    o.getOwn (.ofIndex i) = (elements.get? i).map .data := by
  simp only [getOwn, place_ofIndex ho hi]

theorem place_length {o : Object κ} {elements : Elements} (ho : o.kind = .array elements) :
    o.place .length = .length elements := by
  have named : Key.length.index? = none := by decide
  simp only [place, ho, named, if_true]

/-- What is in the table is found there, and the elements of an array fit. -/
structure LaidOut (o : Object κ) : Prop where
  entries {k : Key} {p : Property} : o.table.find? k = some p → o.place k = .entry
  fits {elements : Elements} : o.kind = .array elements → elements.Fits

theorem fits_of_defineElement {old new : Elements} {extensible : Bool} {i : Nat} {d : Descriptor}
    (ho : old.Fits) (hi : i ≤ Key.maxIndex) (h : defineElement old extensible i d = .ok new) :
    new.Fits := by
  simp only [defineElement] at h
  split at h
  · cases h
  · split at h
    · cases h
    · cases h
      exact ho.put (Nat.lt_of_le_of_lt hi (by decide)) _

theorem fits_of_defineLength {old new : Elements} {d : Descriptor} (ho : old.Fits)
    (h : defineLength old d = .ok new) : new.Fits := by
  unfold defineLength at h
  split at h
  · cases h
    exact ho
  · split at h
    · next n hn =>
      cases h
      obtain ⟨number, -, hn⟩ := Option.bind_eq_some_iff.1 hn
      obtain ⟨q, -, hq⟩ := Option.bind_eq_some_iff.1 hn
      split at hq
      · next bound =>
        cases hq
        exact .resize bound.2.2
      · cases hq
    · cases h

namespace LaidOut

variable {o object : Object κ} {k : Key}

theorem ofElements {old new : Elements} (h : o.LaidOut) (ho : o.kind = .array old)
    (hn : new.Fits) : ({ o with kind := .array new } : Object κ).LaidOut where
  entries hk := place_eq_entry_of_array new ho (h.entries hk)
  fits hk := by cases hk; exact hn

theorem ofTable {table : Table} (h : o.LaidOut)
    (ht : ∀ {k p}, table.find? k = some p → o.place k = .entry) :
    ({ o with table } : Object κ).LaidOut where
  entries := ht
  fits := h.fits

/-- A property in the table of an object takes its place there. -/
theorem put (h : o.LaidOut) (hk : o.place k = .entry) (p : Property) :
    ({ o with table := o.table.put k p } : Object κ).LaidOut := by
  refine h.ofTable fun {j q} hj => ?_
  by_cases hjk : j = k
  · exact hjk ▸ hk
  · exact h.entries ((Table.find?_put_of_ne _ _ hjk).symm.trans hj)

theorem define {d : Descriptor} (h : o.LaidOut) (hd : o.define k d = .ok object) :
    object.LaidOut := by
  cases place : o.place k with
  | element elements i =>
      obtain ⟨kind, hi⟩ := of_place_eq_element place
      simp only [Object.define, place] at hd
      obtain ⟨new, hn, rfl⟩ := except_map_eq_ok_iff.1 hd
      exact h.ofElements kind
        (fits_of_defineElement (h.fits kind) (Key.index?_eq_some_iff.1 hi).2 hn)
  | length elements =>
      obtain ⟨kind, -⟩ := of_place_eq_length place
      simp only [Object.define, place] at hd
      obtain ⟨new, hn, rfl⟩ := except_map_eq_ok_iff.1 hd
      exact h.ofElements kind (fits_of_defineLength (h.fits kind) hn)
  | entry =>
      rcases define_cases hd with ⟨_, _, _, entry, _⟩ | ⟨_, _, _, rfl⟩ | ⟨p, _, _, rfl⟩
      · exact absurd place entry
      · exact h.put place _
      · exact h.put place _

theorem delete (h : o.LaidOut) (hd : o.delete k = .ok object) : object.LaidOut := by
  cases place : o.place k with
  | element elements i =>
      obtain ⟨kind, -⟩ := of_place_eq_element place
      simp only [Object.delete, place] at hd
      cases hd
      exact h.ofElements kind ((h.fits kind).erase i)
  | length elements =>
      simp only [Object.delete, place] at hd
      cases hd
  | entry =>
      simp only [Object.delete, place] at hd
      split at hd
      · split at hd
        · cases hd
          refine h.ofTable fun {j q} hj => ?_
          by_cases hjk : j = k
          · exact hjk ▸ place
          · exact h.entries ((Table.find?_erase_of_ne _ hjk).symm.trans hj)
        · cases hd
      · cases hd
        exact h

theorem push {v : Value} {n : Nat} (h : o.LaidOut) (hv : o.push v = .ok (n, object)) :
    object.LaidOut := by
  unfold Object.push at hv
  split at hv
  · next elements kind =>
    split at hv
    · cases hv
    · next room =>
      cases hv
      have fits := h.fits kind
      exact h.ofElements kind (fits.put (Nat.lt_of_le_of_ne fits.length room) v)
  · cases hv

/-! ### Own keys -/

theorem place_of_mem_keys (h : o.LaidOut) (hk : k ∈ o.table.keys) : o.place k = .entry := by
  obtain ⟨p, hp⟩ := Option.isSome_iff_exists.1 (Table.mem_keys_iff.1 hk)
  exact h.entries hp

theorem le_maxIndex {elements : Elements} {i : Nat} (h : o.LaidOut)
    (ho : o.kind = .array elements) (hi : i ∈ elements.indices) : i ≤ Key.maxIndex := by
  have below := (h.fits ho).below (Elements.mem_indices_iff.1 hi)
  exact Nat.le_sub_one_of_lt (Nat.lt_of_lt_of_le below (h.fits ho).length)

theorem index?_ofIndex {elements : Elements} {i : Nat} (h : o.LaidOut)
    (ho : o.kind = .array elements) (hi : i ∈ elements.indices) :
    (Key.ofIndex i).index? = some i :=
  Key.index?_eq_some_iff.2 ⟨rfl, h.le_maxIndex ho hi⟩

/-- An object has its own keys, and no others. -/
theorem mem_ownKeys_iff (h : o.LaidOut) : k ∈ o.ownKeys ↔ (o.getOwn k).isSome := by
  cases ho : o.elements? with
  | none => rw [ownKeys_of_not_array ho, getOwn_of_not_array ho, Table.mem_keys_iff]
  | some elements =>
      have kind := elements?_eq_some_iff.1 ho
      simp only [ownKeys, kind, List.mem_append, List.mem_map, List.mem_cons]
      unfold getOwn
      cases place : o.place k with
      | element elements' i =>
          obtain ⟨kind', hi⟩ := of_place_eq_element place
          cases kind.symm.trans kind'
          obtain ⟨rfl, -⟩ := Key.index?_eq_some_iff.1 hi
          rw [Option.isSome_map, ← Elements.mem_indices_iff]
          constructor
          · rintro (⟨j, hj, same⟩ | same | hk)
            · exact Key.ofIndex_inj.1 same ▸ hj
            · exact absurd same (Key.ofIndex_ne_length i)
            · cases place.symm.trans (h.place_of_mem_keys hk)
          · exact fun hi => .inl ⟨i, hi, rfl⟩
      | length elements' => exact iff_of_true (.inr (.inl (of_place_eq_length place).2)) rfl
      | entry =>
          have named := place_eq_entry_iff.1 place elements kind
          rw [← Table.mem_keys_iff]
          constructor
          · rintro (⟨i, hi, rfl⟩ | rfl | hk)
            · cases named.1.symm.trans (h.index?_ofIndex kind hi)
            · exact absurd rfl named.2
            · exact hk
          · exact fun hk => .inr (.inr hk)

theorem nodup_ownKeys (h : o.LaidOut) : o.ownKeys.Nodup := by
  unfold ownKeys
  split
  · next elements kind =>
    have named {k : Key} (hk : k ∈ o.table.keys) : k.index? = none ∧ k ≠ .length :=
      place_eq_entry_iff.1 (h.place_of_mem_keys hk) elements kind
    have indices : (elements.indices.map Key.ofIndex).Nodup :=
      List.pairwise_map.2 ((Elements.pairwise_indices elements).imp fun less same =>
        Nat.ne_of_lt less (Key.ofIndex_inj.1 same))
    refine List.nodup_append.2 ⟨indices, List.nodup_cons.2 ⟨fun hk => (named hk).2 rfl,
      Table.nodup_keys _⟩, fun j hj k hk same => ?_⟩
    obtain ⟨i, hi, rfl⟩ := List.mem_map.1 hj
    subst same
    rcases List.mem_cons.1 hk with same | hk
    · exact Key.ofIndex_ne_length i same
    · cases (named hk).1.symm.trans (h.index?_ofIndex kind hi)
  · exact Table.nodup_keys _

end LaidOut

theorem laidOut_inert : (inert : Object κ).LaidOut where
  entries hk := by cases (Table.find?_empty _).symm.trans hk
  fits hk := by cases hk

theorem Made.laidOut {o : Object κ} (h : o.Made) : o.LaidOut where
  entries {k p} hk := by
    refine place_eq_entry_iff.2 fun elements kind => ?_
    rw [h.bare kind] at hk
    cases (Table.find?_empty k).symm.trans hk
  fits := h.fits

end Object

/-! ## The heap -/

namespace Heap

/-- Every object is laid out. -/
def LaidOut (h : Heap κ) : Prop := ∀ o, (h.get o).LaidOut

theorem laidOut_empty : (empty : Heap κ).LaidOut := fun o => by
  have absent : (empty : Heap κ).contains o = false := by simp [contains, empty, size]
  rw [get_of_not_contains absent]
  exact Object.laidOut_inert

namespace LaidOut

variable {h h' : Heap κ}

theorem set (l : h.LaidOut) {o : ObjectId} {object : Object κ}
    (ho : object.LaidOut) : (h.set o object).LaidOut := by
  intro q
  by_cases hq : q = o
  · subst hq
    cases held : h.contains q with
    | true => exact (get_set_self object held).symm ▸ ho
    | false => exact (set_of_not_contains object held).symm ▸ l q
  · exact (get_set_of_ne h object hq).symm ▸ l q

theorem step {Defines : ObjectId → Key → Descriptor → Prop} (l : h.LaidOut)
    (s : Step Defines h h') : h'.LaidOut := by
  cases s with
  | define _ hd => exact l.set ((l _).define hd)
  | delete hd => exact l.set ((l _).delete hd)
  | push hv => exact l.set ((l _).push hv)
  | preventExtensions => exact l.set ⟨(l _).entries, (l _).fits⟩
  | setPrototype => exact l.set ⟨(l _).entries, (l _).fits⟩
  | allocate ho =>
      intro q
      by_cases hq : q = h.next
      · rw [hq, get_allocate_next]
        exact ⟨ho.laidOut.entries, ho.laidOut.fits⟩
      · exact (get_allocate_of_ne h _ hq).symm ▸ l q

end LaidOut

end Heap

/-- Every object of a reached world is laid out. -/
theorem World.Reached.laidOut {w : World κ σ} (hw : w.Reached) : w.heap.LaidOut :=
  hw.heap Heap.laidOut_empty fun l s => l.step s

end Prototypal
