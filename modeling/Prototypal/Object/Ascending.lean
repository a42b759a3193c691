import Std.Data.ExtTreeMap

/-!
# Maps by number

What the operations on a map with numbers as keys do to the list of its entries, which is ascending:
a greater key goes to the end, and erasing leaves the order alone.
-/

namespace Prototypal.Ascending

variable {α : Type}

theorem pairwise_toList (m : Std.ExtTreeMap Nat α) : m.toList.Pairwise fun a b => a.1 < b.1 :=
  m.ordered_keys_toList.imp Nat.compare_eq_lt.1

/-- Ascending lists with the same members are equal. -/
theorem eq_of_mem_iff {l₁ l₂ : List (Nat × α)} (h₁ : l₁.Pairwise fun a b => a.1 < b.1)
    (h₂ : l₂.Pairwise fun a b => a.1 < b.1) (h : ∀ a, a ∈ l₁ ↔ a ∈ l₂) : l₁ = l₂ := by
  have nodup {l : List (Nat × α)} (hl : l.Pairwise fun a b => a.1 < b.1) : l.Nodup := by
    refine hl.imp fun {a b} hab e => ?_
    subst e
    exact Nat.lt_irrefl _ hab
  exact List.Perm.eq_of_pairwise (fun _ _ _ _ hab hba => absurd hab (Nat.lt_asymm hba)) h₁ h₂
    ((List.perm_ext_iff_of_nodup (nodup h₁) (nodup h₂)).2 h)

theorem mem_toList_iff {m : Std.ExtTreeMap Nat α} {i : Nat} {a : α} :
    (i, a) ∈ m.toList ↔ m[i]? = some a :=
  Std.ExtTreeMap.mem_toList_iff_getElem?_eq_some

theorem toList_insert_of_lt {m : Std.ExtTreeMap Nat α} {n : Nat} (a : α)
    (h : ∀ i b, m[i]? = some b → i < n) : (m.insert n a).toList = m.toList ++ [(n, a)] := by
  refine eq_of_mem_iff (pairwise_toList _) ?_ ?_
  · refine List.pairwise_append.2 ⟨pairwise_toList m, List.pairwise_singleton _ _, ?_⟩
    rintro ⟨i, b⟩ hb e he
    rw [List.mem_singleton.1 he]
    exact h i b (mem_toList_iff.1 hb)
  · rintro ⟨i, b⟩
    have hn : m[n]? ≠ some b := fun e => Nat.lt_irrefl n (h n b e)
    rw [mem_toList_iff, List.mem_append, mem_toList_iff, Std.ExtTreeMap.getElem?_insert]
    by_cases hi : n = i
    · subst hi; simp [hn, eq_comm]
    · simp [hi, Ne.symm hi]

theorem toList_erase (m : Std.ExtTreeMap Nat α) (n : Nat) :
    (m.erase n).toList = m.toList.filter (·.1 ≠ n) := by
  refine eq_of_mem_iff (pairwise_toList _) ((pairwise_toList m).filter _) ?_
  rintro ⟨i, b⟩
  rw [mem_toList_iff, List.mem_filter, mem_toList_iff, Std.ExtTreeMap.getElem?_erase]
  by_cases hi : n = i
  · simp [hi]
  · simp [hi, Ne.symm hi]

end Prototypal.Ascending
