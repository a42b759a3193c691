import Prototypal.Object.Ascending
import Prototypal.Property.Basic

/-!
# Array elements

The elements of an array by index; an index below the length without an element is a hole.  `get?`
is the view of the elements; each operation has its equation for it.
-/

namespace Prototypal

/-- Stored elements and the length. -/
structure Elements where
  entries : Std.ExtTreeMap Nat Value
  length : Nat

namespace Elements

/-- The elements with the given values, from index zero on. -/
def ofList (values : List Value) : Elements :=
  let kept := values.take Number.maxLength
  ⟨.ofList (kept.zipIdx.map Prod.swap), kept.length⟩

/-- The element at an index. -/
def get? (e : Elements) (i : Nat) : Option Value := e.entries[i]?

/-- Stores an element; the length grows to hold it. -/
def put (e : Elements) (i : Nat) (v : Value) : Elements :=
  ⟨e.entries.insert i v, max e.length (i + 1)⟩

/-- Makes a hole. -/
def erase (e : Elements) (i : Nat) : Elements := { e with entries := e.entries.erase i }

/-- Drops the greatest entry while it is not below a bound, at most `n` times. -/
def dropFrom (bound : Nat) : Nat → Std.ExtTreeMap Nat Value → Std.ExtTreeMap Nat Value
  | 0, entries => entries
  | n + 1, entries =>
    match entries.maxKey? with
    | some i => if i < bound then entries else dropFrom bound n (entries.erase i)
    | none => entries

/-- Sets the length; elements at or past it are dropped. -/
def resize (e : Elements) (length : Nat) : Elements :=
  ⟨dropFrom length e.entries.size e.entries, length⟩

/-- The indices that have an element, ascending. -/
def indices (e : Elements) : List Nat := e.entries.keys

/-- The elements below the length, holes read as `undefined`. -/
def toList (e : Elements) : List Value :=
  (List.range e.length).map fun i => (e.get? i).getD .undefined

/-- The `length` property of an array. -/
def lengthProperty (e : Elements) : Property :=
  ⟨.data (.number (.ofNat e.length)) true, false, false⟩

/-! ## The view of each operation -/

/-- Elements of one length with the same view are equal. -/
theorem ext_get? {e₁ e₂ : Elements} (hl : e₁.length = e₂.length) (h : ∀ i, e₁.get? i = e₂.get? i) :
    e₁ = e₂ := by
  cases e₁; cases e₂
  rw [Elements.mk.injEq]
  exact ⟨Std.ExtTreeMap.ext_getElem? h, hl⟩

theorem get?_ofList (values : List Value) (i : Nat) :
    (ofList values).get? i = (values.take Number.maxLength)[i]? := by
  simp only [ofList, get?]
  generalize values.take Number.maxLength = kept
  by_cases h : i < kept.length
  · rw [List.getElem?_eq_getElem h]
    refine Std.ExtTreeMap.getElem?_ofList_of_mem Std.ReflCmp.compare_self ?_ ?_
    · rw [List.pairwise_map, List.pairwise_iff_getElem]
      intro j k hj hk hjk
      simp only [List.getElem_zipIdx, Prod.fst_swap, Std.compare_eq_iff_eq]
      omega
    · exact List.mem_map.2 ⟨(kept[i], i),
        List.mem_zipIdx_iff_getElem?.2 (List.getElem?_eq_getElem h), rfl⟩
  · have absent : kept[i]? = none := List.getElem?_eq_none (Nat.le_of_not_lt h)
    rw [absent]
    refine Std.ExtTreeMap.getElem?_ofList_of_contains_eq_false ?_
    simp [List.mem_zipIdx_iff_getElem?, absent]

theorem get?_put_self (e : Elements) (i : Nat) (v : Value) : (e.put i v).get? i = some v := by
  simp [put, get?]

theorem get?_put_of_ne (e : Elements) {i j : Nat} (v : Value) (h : j ≠ i) :
    (e.put i v).get? j = e.get? j := by
  simp [put, get?, Std.ExtTreeMap.getElem?_insert, Ne.symm h]

theorem get?_erase_self (e : Elements) (i : Nat) : (e.erase i).get? i = none := by
  simp [erase, get?]

theorem get?_erase_of_ne (e : Elements) {i j : Nat} (h : j ≠ i) :
    (e.erase i).get? j = e.get? j := by
  simp [erase, get?, Std.ExtTreeMap.getElem?_erase, Ne.symm h]

theorem getElem?_dropFrom (bound i : Nat) {n : Nat} {entries : Std.ExtTreeMap Nat Value}
    (hn : entries.size ≤ n) :
    (dropFrom bound n entries)[i]? = if i < bound then entries[i]? else none := by
  induction n generalizing entries with
  | zero =>
    have : entries = ∅ := Std.ExtTreeMap.eq_empty_iff_size_eq_zero.2 (Nat.le_zero.1 hn)
    simp [dropFrom, this]
  | succ n ih =>
    unfold dropFrom
    split
    · rename_i m hm
      obtain ⟨mem, greatest⟩ := Std.ExtTreeMap.maxKey?_eq_some_iff_mem_and_forall.1 hm
      split
      · split
        · rfl
        · refine Std.ExtTreeMap.getElem?_eq_none fun hi => ?_
          have := Nat.isLE_compare.1 (greatest i hi)
          omega
      · rw [ih (by rw [Std.ExtTreeMap.size_erase]; simp [mem]; omega)]
        rw [Std.ExtTreeMap.getElem?_erase]
        by_cases h : m = i
        · subst h; simp_all
        · simp [h]
    · rename_i hm
      simp [Std.ExtTreeMap.maxKey?_eq_none_iff.1 hm]

theorem get?_resize (e : Elements) (length i : Nat) :
    (e.resize length).get? i = if i < length then e.get? i else none :=
  getElem?_dropFrom length i (Nat.le_refl _)

theorem mem_indices_iff {e : Elements} {i : Nat} : i ∈ e.indices ↔ (e.get? i).isSome := by
  simp [indices, get?]

theorem pairwise_indices (e : Elements) : e.indices.Pairwise (· < ·) :=
  Std.ExtTreeMap.ordered_keys.imp Nat.compare_eq_lt.1

end Elements

end Prototypal
