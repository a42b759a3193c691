import Std.Data.ExtTreeMap
import Prototypal.Key

/-!
# The order of keys

A total order of property keys, in which tables look keys up: texts come before private names, and
keys that compare as equal are equal.
-/

namespace Prototypal

/-- Private names by their serial number; names of one number by what else they carry. -/
def PrivateName.compare (m n : PrivateName) : Ordering :=
  (Ord.compare m.serial n.serial).then
    ((Ord.compare m.display n.display).then (Ord.compare m.storageKey n.storageKey))

namespace PrivateName

theorem compare_eq_compareLex :
    PrivateName.compare = compareLex (compareOn serial)
      (compareLex (compareOn display) (compareOn storageKey)) := rfl

instance : Std.TransCmp PrivateName.compare :=
  compare_eq_compareLex ▸ inferInstance

instance : Std.LawfulEqCmp PrivateName.compare where
  compare_self := by simp [PrivateName.compare]
  eq_of_compare {m n} h := by
    simp only [PrivateName.compare, Ordering.then_eq_eq, Std.compare_eq_iff_eq] at h
    obtain ⟨serial, display, storageKey⟩ := h
    cases m; cases n; simp_all

end PrivateName

namespace Key

/-- Texts before private names. -/
def compare : Key → Key → Ordering
  | .text s, .text t => Ord.compare s t
  | .text _, .name _ => .lt
  | .name _, .text _ => .gt
  | .name m, .name n => m.compare n

instance : Std.OrientedCmp Key.compare where
  eq_swap {j k} :=
    match j, k with
    | .text _, .text _ => Std.OrientedOrd.eq_swap
    | .text _, .name _ | .name _, .text _ => rfl
    | .name _, .name _ => @Std.OrientedCmp.eq_swap _ PrivateName.compare _ _ _

instance : Std.TransCmp Key.compare where
  isLE_trans {i j k} hij hjk :=
    match i, j, k with
    | .text _, .text _, .text _ => Std.TransOrd.isLE_trans hij hjk
    | .name _, .name _, .name _ => @Std.TransCmp.isLE_trans _ PrivateName.compare _ _ _ _ hij hjk
    | .text _, _, .name _ => rfl
    | .name _, .text _, _ => nomatch hij
    | _, .name _, .text _ => nomatch hjk

instance : Std.LawfulEqCmp Key.compare where
  compare_self {k} := by cases k <;> simp [Key.compare]
  eq_of_compare {j k} h := by cases j <;> cases k <;> simp_all [Key.compare]

end Key

end Prototypal
