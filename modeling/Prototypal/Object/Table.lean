import Prototypal.Key.Order
import Prototypal.Object.Ascending
import Prototypal.Property.Redefinition

/-!
# Property tables

The named properties of an object in the order in which their keys were first defined.  `find?` and
`keys` are the views of a table; each operation has its equations for them.
-/

namespace Prototypal

/-- Properties under their keys.  Each key has a place, which grows with the time of its definition,
and stands at that place in the order of all keys. -/
structure Table where
  slots : Std.ExtTreeMap Key (Nat × Property) Key.compare
  order : Std.ExtTreeMap Nat Key
  /-- The place of the next new key. -/
  next : Nat
  order_iff : ∀ (i : Nat) (k : Key), order[i]? = some k ↔ ∃ p, slots[k]? = some (i, p)
  lt_next : ∀ (k : Key) (i : Nat) (p : Property), slots[k]? = some (i, p) → i < next

namespace Table

/-- No properties. -/
def empty : Table := ⟨∅, ∅, 0, by simp, by simp⟩

instance : Inhabited Table := ⟨empty⟩

/-- The keys in order. -/
def keys (t : Table) : List Key := t.order.toList.map (·.2)

/-- The property under a key. -/
def find? (t : Table) (k : Key) : Option Property := t.slots[k]?.map (·.2)

/-- The place of a key, or the next one for an absent key. -/
def place (t : Table) (k : Key) : Nat := (t.slots[k]?.map (·.1)).getD t.next

/-- Only the key itself stands at its place. -/
theorem place_eq_iff {t : Table} {i : Nat} {j k : Key} (h : t.order[i]? = some j) :
    t.place k = i ↔ k = j := by
  obtain ⟨p, hp⟩ := (t.order_iff i j).1 h
  constructor
  · rintro rfl
    cases hk : t.slots[k]? with
    | none => exact absurd (t.lt_next _ _ _ hp) (by simp [place, hk])
    | some e =>
      have : t.order[t.place k]? = some k := (t.order_iff _ _).2 ⟨e.2, by simp [place, hk]⟩
      exact Option.some.inj (this.symm.trans h)
  · rintro rfl
    simp [place, hp]

/-- Stores a property: at its old place if the key is present, at the end otherwise. -/
def put (t : Table) (k : Key) (p : Property) : Table where
  slots := t.slots.insert k (t.place k, p)
  order := t.order.insert (t.place k) k
  next := max t.next (t.place k + 1)
  order_iff i j := by
    simp only [Std.ExtTreeMap.getElem?_insert, Std.LawfulEqCmp.compare_eq_iff_eq]
    have := @place_eq_iff t i j k
    have := t.order_iff i j
    by_cases hi : t.place k = i <;> by_cases hj : k = j <;> simp_all
  lt_next j i q h := by
    rw [Std.ExtTreeMap.getElem?_insert] at h
    split at h
    · obtain ⟨rfl, -⟩ := Prod.mk.inj (Option.some.inj h)
      exact Nat.lt_of_lt_of_le (Nat.lt_succ_self _) (Nat.le_max_right _ _)
    · exact Nat.lt_of_lt_of_le (t.lt_next j i q h) (Nat.le_max_left _ _)

/-- Drops a key; the others keep their order. -/
def erase (t : Table) (k : Key) : Table where
  slots := t.slots.erase k
  order := t.order.erase (t.place k)
  next := t.next
  order_iff i j := by
    simp only [Std.ExtTreeMap.getElem?_erase, Std.LawfulEqCmp.compare_eq_iff_eq]
    have := @place_eq_iff t i j k
    have := t.order_iff i j
    by_cases hi : t.place k = i <;> by_cases hj : k = j <;> simp_all
  lt_next j i q h := by
    rw [Std.ExtTreeMap.getElem?_erase] at h
    exact t.lt_next j i q (by split at h <;> simp_all)

/-- The table of the given properties. -/
def ofList (properties : List (Key × Property)) : Table :=
  properties.foldl (fun t (k, p) => t.put k p) empty

/-! ## The views of each operation -/

@[simp]
theorem find?_empty (k : Key) : empty.find? k = none := by simp [empty, find?]

theorem find?_put_self (t : Table) (k : Key) (p : Property) : (t.put k p).find? k = some p := by
  simp [put, find?]

theorem find?_put_of_ne (t : Table) {k j : Key} (p : Property) (h : j ≠ k) :
    (t.put k p).find? j = t.find? j := by
  simp [put, find?, Std.ExtTreeMap.getElem?_insert, Ne.symm h]

theorem mem_or_find?_of_foldl_put {properties : List (Key × Property)} {t : Table} {k : Key}
    {p : Property} (h : (properties.foldl (fun t (k, p) => t.put k p) t).find? k = some p) :
    (k, p) ∈ properties ∨ t.find? k = some p := by
  induction properties generalizing t with
  | nil => exact .inr h
  | cons e properties ih =>
    obtain ⟨j, q⟩ := e
    rcases ih h with h | h
    · exact .inl (List.mem_cons_of_mem _ h)
    · by_cases hj : k = j
      · subst hj
        cases (find?_put_self t k q).symm.trans h
        exact .inl List.mem_cons_self
      · exact .inr (find?_put_of_ne t q hj ▸ h)

/-- A table of given properties has no others. -/
theorem mem_of_find?_ofList {properties : List (Key × Property)} {k : Key} {p : Property}
    (h : (ofList properties).find? k = some p) : (k, p) ∈ properties := by
  rcases mem_or_find?_of_foldl_put h with h | h
  · exact h
  · cases (find?_empty k).symm.trans h

theorem find?_erase_self (t : Table) (k : Key) : (t.erase k).find? k = none := by
  simp [erase, find?]

theorem find?_erase_of_ne (t : Table) {k j : Key} (h : j ≠ k) :
    (t.erase k).find? j = t.find? j := by
  simp [erase, find?, Std.ExtTreeMap.getElem?_erase, Ne.symm h]

@[simp]
theorem keys_empty : empty.keys = [] := by simp [empty, keys]

theorem mem_keys_iff {t : Table} {k : Key} : k ∈ t.keys ↔ (t.find? k).isSome := by
  simp only [keys, List.mem_map, Prod.exists, exists_eq_right, Ascending.mem_toList_iff,
    t.order_iff, find?, Option.isSome_map, Option.isSome_iff_exists]

theorem nodup_keys (t : Table) : t.keys.Nodup := by
  refine List.pairwise_map.2 ((Ascending.pairwise_toList t.order).imp_of_mem ?_)
  intro a b ha hb hab h
  have ha := (place_eq_iff (Ascending.mem_toList_iff.1 ha)).2 h.symm
  have hb := (place_eq_iff (Ascending.mem_toList_iff.1 hb)).2 rfl
  omega

theorem keys_put_of_absent {t : Table} {k : Key} (p : Property) (h : t.find? k = none) :
    (t.put k p).keys = t.keys ++ [k] := by
  have hk : t.place k = t.next := by simp_all [find?, place]
  have : ∀ (i : Nat) (j : Key), t.order[i]? = some j → i < t.place k := fun i j hj => by
    obtain ⟨q, hq⟩ := (t.order_iff i j).1 hj
    exact hk ▸ t.lt_next j i q hq
  simp [keys, put, Ascending.toList_insert_of_lt k this]

theorem order_insert_place {t : Table} {k : Key} (h : (t.find? k).isSome) :
    t.order.insert (t.place k) k = t.order := by
  obtain ⟨⟨i, j⟩, hi, e⟩ := List.mem_map.1 (mem_keys_iff.2 h)
  have hi : t.order[i]? = some k := e ▸ Ascending.mem_toList_iff.1 hi
  rw [(place_eq_iff hi).2 rfl]
  refine Std.ExtTreeMap.ext_getElem? fun j => ?_
  rw [Std.ExtTreeMap.getElem?_insert]
  split <;> simp_all

theorem keys_put_of_present {t : Table} {k : Key} (p : Property) (h : (t.find? k).isSome) :
    (t.put k p).keys = t.keys := by
  simp [keys, put, order_insert_place h]

/-- Storing a property that is there already changes nothing. -/
theorem put_eq_self {t : Table} {k : Key} {p : Property} (h : t.find? k = some p) :
    t.put k p = t := by
  have order := order_insert_place (Option.isSome_iff_exists.2 ⟨p, h⟩)
  obtain ⟨⟨i, q⟩, hi, rfl⟩ := Option.map_eq_some_iff.1 h
  have place : t.place k = i := by simp [place, hi]
  have slots : t.slots.insert k (t.place k, q) = t.slots := by
    refine Std.ExtTreeMap.ext_getElem? fun j => ?_
    rw [Std.ExtTreeMap.getElem?_insert, place]
    split <;> simp_all
  have next : max t.next (t.place k + 1) = t.next := by
    have := t.lt_next k i q hi
    omega
  cases t
  simp_all [put]

theorem keys_erase (t : Table) (k : Key) : (t.erase k).keys = t.keys.filter (· ≠ k) := by
  simp only [keys, erase, Ascending.toList_erase, List.filter_map]
  congr 1
  refine List.filter_congr fun e he => ?_
  have := @place_eq_iff t e.1 e.2 k (Ascending.mem_toList_iff.1 he)
  grind

end Table

end Prototypal
