import Prototypal.Object.Elements

/-!
# Elements that fit

An element stands below the length, and the length is no greater than arrays may have.
-/

namespace Prototypal

namespace Elements

theorem length_toList (e : Elements) : e.toList.length = e.length := by
  rw [toList, List.length_map, List.length_range]

/-- Every element is below the length, which an array may have. -/
structure Fits (e : Elements) : Prop where
  length : e.length ≤ Number.maxLength
  below {i : Nat} : (e.get? i).isSome → i < e.length

namespace Fits

variable {e : Elements}

theorem ofList (values : List Value) : (Elements.ofList values).Fits where
  length := by
    rw [Elements.ofList, List.length_take]
    exact Nat.min_le_left ..
  below {i} hi := by
    rw [get?_ofList] at hi
    exact (List.getElem?_eq_some_iff.1 (Option.eq_some_of_isSome hi)).1

theorem put (h : e.Fits) {i : Nat} (hi : i < Number.maxLength) (v : Value) : (e.put i v).Fits where
  length := Nat.max_le.2 ⟨h.length, hi⟩
  below {j} hj := by
    by_cases hji : j = i
    · subst hji
      exact Nat.lt_of_lt_of_le (Nat.lt_succ_self j) (Nat.le_max_right ..)
    · rw [get?_put_of_ne e v hji] at hj
      exact Nat.lt_of_lt_of_le (h.below hj) (Nat.le_max_left ..)

theorem erase (h : e.Fits) (i : Nat) : (e.erase i).Fits where
  length := h.length
  below {j} hj := by
    by_cases hji : j = i
    · subst hji
      rw [get?_erase_self] at hj
      cases hj
    · rw [get?_erase_of_ne e hji] at hj
      exact h.below hj

theorem resize {n : Nat} (hn : n ≤ Number.maxLength) : (e.resize n).Fits where
  length := hn
  below {j} hj := by
    rw [get?_resize] at hj
    split at hj
    · assumption
    · cases hj

/-- Storing an element that is there already changes nothing. -/
theorem put_eq_self (h : e.Fits) {i : Nat} {v : Value} (hi : e.get? i = some v) :
    e.put i v = e := by
  have below : i < e.length := h.below (Option.isSome_iff_exists.2 ⟨v, hi⟩)
  refine ext_get? (Nat.max_eq_left below) fun j => ?_
  by_cases hji : j = i
  · subst hji
    rw [get?_put_self, hi]
  · exact get?_put_of_ne e v hji

/-- No element is dropped where the length stays. -/
theorem resize_eq_self (h : e.Fits) : e.resize e.length = e := by
  refine ext_get? rfl fun i => ?_
  rw [get?_resize]
  split
  · rfl
  · next past => exact (Option.not_isSome_iff_eq_none.1 (mt h.below past)).symm

end Fits

end Elements

end Prototypal
