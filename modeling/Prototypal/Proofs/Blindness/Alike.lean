import Prototypal.Access
import Prototypal.Proofs.Entry

/-!
# Graphs that are alike

Graphs of objects are alike if they are equal but for the properties under hidden keys.  Lookup
under a key that is not hidden finds the same in alike graphs, and definition and deletion under it
keep them alike.
-/

namespace Prototypal

variable {κ : Type} {hidden : Key → Bool}

/-- Elements and the length of an array cannot be hidden. -/
def Key.Hideable (hidden : Key → Bool) : Prop :=
  ∀ k, hidden k = true → k.index? = none ∧ k ≠ .length

/-! ## Objects -/

/-- Objects that are equal but for their properties under hidden keys. -/
structure Object.Alike (hidden : Key → Bool) (o o' : Object κ) : Prop where
  kind : o.kind = o'.kind
  prototype : o.prototype = o'.prototype
  extensible : o.extensible = o'.extensible
  find? {k : Key} : hidden k = false → o.table.find? k = o'.table.find? k
  keys : (o.table.keys.filter fun k => !hidden k) = o'.table.keys.filter fun k => !hidden k

/-- What becomes of an object whose properties under hidden keys are neither made nor changed nor
removed. -/
def Object.Untouched (hidden : Key → Bool) (o o' : Object κ) : Prop :=
  ∀ k, hidden k = true → o'.getOwn k = o.getOwn k

/-- A change does the same to alike objects, and leaves alone what is hidden. -/
def Object.Blindly (hidden : Key → Bool) (f : Object κ → Except Fault (Object κ)) : Prop :=
  ∀ ⦃o o'⦄, o.Alike hidden o' →
    (∃ e, f o = .error e ∧ f o' = .error e) ∨
      ∃ a a', f o = .ok a ∧ f o' = .ok a' ∧ a.Alike hidden a' ∧
        o.Untouched hidden a ∧ o'.Untouched hidden a'

namespace Object

variable {o o' : Object κ} {k : Key}

theorem Alike.refl (o : Object κ) : o.Alike hidden o := ⟨rfl, rfl, rfl, fun _ => rfl, rfl⟩

theorem Alike.place (h : o.Alike hidden o') (k : Key) : o.place k = o'.place k := by
  rw [Object.place, Object.place, h.kind]

theorem Alike.getOwn (h : o.Alike hidden o') (hk : hidden k = false) :
    o.getOwn k = o'.getOwn k := by
  rw [Object.getOwn, Object.getOwn, h.place]
  split
  · rfl
  · rfl
  · exact h.find? hk

theorem Alike.isCallable (h : o.Alike hidden o') : o.isCallable = o'.isCallable := by
  rw [Object.isCallable, Object.isCallable, body?, body?, h.kind]

theorem Alike.body? (h : o.Alike hidden o') : o.body? = o'.body? := by
  rw [Object.body?, Object.body?, h.kind]

/-- The own keys that are not hidden. -/
theorem Alike.ownKeys (h : o.Alike hidden o') :
    (o.ownKeys.filter fun k => !hidden k) = o'.ownKeys.filter fun k => !hidden k := by
  rw [Object.ownKeys, Object.ownKeys, h.kind]
  split
  · simp only [List.filter_append, List.filter_cons, h.keys]
  · exact h.keys

theorem Untouched.refl (o : Object κ) : o.Untouched hidden o := fun _ _ => rfl

theorem getOwn_of_hidden (hh : Key.Hideable hidden) (o : Object κ) (hk : hidden k = true) :
    o.getOwn k = o.table.find? k := by
  have entry : o.place k = .entry := place_eq_entry_iff.2 fun _ _ => hh k hk
  rw [getOwn, entry]

theorem Untouched.ofTable (hh : Key.Hideable hidden)
    (h : ∀ k, hidden k = true → o'.table.find? k = o.table.find? k) : o.Untouched hidden o' := by
  intro k hk
  rw [getOwn_of_hidden hh o hk, getOwn_of_hidden hh o' hk, h k hk]

/-! ## Changes of objects -/

theorem Alike.ofKind (h : o.Alike hidden o') (kind : ObjectKind κ) :
    ({ o with kind } : Object κ).Alike hidden { o' with kind } :=
  ⟨rfl, h.prototype, h.extensible, h.find?, h.keys⟩

theorem Alike.put (h : o.Alike hidden o') (hk : hidden k = false) (p : Property) :
    ({ o with table := o.table.put k p } : Object κ).Alike hidden
      { o' with table := o'.table.put k p } where
  kind := h.kind
  prototype := h.prototype
  extensible := h.extensible
  find? {j} hj := by
    by_cases hjk : j = k
    · subst hjk
      rw [Table.find?_put_self, Table.find?_put_self]
    · rw [Table.find?_put_of_ne _ _ hjk, Table.find?_put_of_ne _ _ hjk, h.find? hj]
  keys := by
    have same := h.find? hk
    cases hp : o.table.find? k with
    | none =>
        rw [Table.keys_put_of_absent p hp, Table.keys_put_of_absent p (same ▸ hp),
          List.filter_append, List.filter_append, h.keys]
    | some q =>
        have present : (o.table.find? k).isSome := by rw [hp]; rfl
        rw [Table.keys_put_of_present p present, Table.keys_put_of_present p (same ▸ present),
          h.keys]

/-- A property under a hidden key makes no difference. -/
theorem Alike.putHidden (hk : hidden k = true) (o : Object κ) (p : Property) :
    ({ o with table := o.table.put k p } : Object κ).Alike hidden o where
  kind := rfl
  prototype := rfl
  extensible := rfl
  find? {j} hj := by
    refine Table.find?_put_of_ne _ _ ?_
    rintro rfl
    cases hk.symm.trans hj
  keys := by
    cases present : o.table.find? k with
    | none =>
        rw [Table.keys_put_of_absent p present, List.filter_append, List.filter_cons_of_neg,
          List.filter_nil, List.append_nil]
        simp [hk]
    | some q => rw [Table.keys_put_of_present p (Option.isSome_of_mem present)]

theorem Alike.erase (h : o.Alike hidden o') (k : Key) :
    ({ o with table := o.table.erase k } : Object κ).Alike hidden
      { o' with table := o'.table.erase k } where
  kind := h.kind
  prototype := h.prototype
  extensible := h.extensible
  find? {j} hj := by
    by_cases hjk : j = k
    · subst hjk
      rw [Table.find?_erase_self, Table.find?_erase_self]
    · rw [Table.find?_erase_of_ne _ hjk, Table.find?_erase_of_ne _ hjk, h.find? hj]
  keys := by
    have visibleFirst (l : List Key) : ((l.filter (· ≠ k)).filter fun j => !hidden j) =
        (l.filter fun j => !hidden j).filter (· ≠ k) := by
      simp only [List.filter_filter, Bool.and_comm]
    rw [Table.keys_erase, Table.keys_erase, visibleFirst, visibleFirst, h.keys]

theorem Untouched.put (hh : Key.Hideable hidden) (hk : hidden k = false) (p : Property) :
    o.Untouched hidden { o with table := o.table.put k p } := by
  refine .ofTable hh fun j hj => Table.find?_put_of_ne _ _ ?_
  rintro rfl
  cases hk.symm.trans hj

theorem Untouched.erase (hh : Key.Hideable hidden) (hk : hidden k = false) :
    o.Untouched hidden { o with table := o.table.erase k } := by
  refine .ofTable hh fun j hj => Table.find?_erase_of_ne _ ?_
  rintro rfl
  cases hk.symm.trans hj

theorem blindly_define (hh : Key.Hideable hidden) (hk : hidden k = false) (d : Descriptor) :
    Blindly (κ := κ) hidden (·.define k d) := by
  rintro ⟨kind, table, prototype, extensible⟩ ⟨kind', table', prototype', extensible'⟩ h
  obtain ⟨rfl, rfl, rfl⟩ : kind = kind' ∧ prototype = prototype' ∧ extensible = extensible' :=
    ⟨h.kind, h.prototype, h.extensible⟩
  have place := h.place k
  have found := h.find? hk
  dsimp only at found ⊢
  unfold Object.define
  rw [← place]
  split
  · next e i _ =>
    cases he : defineElement e extensible i d with
    | error f => exact .inl ⟨f, rfl, rfl⟩
    | ok e => exact .inr ⟨_, _, rfl, rfl, h.ofKind (.array e), .ofTable hh fun _ _ => rfl,
        .ofTable hh fun _ _ => rfl⟩
  · next e _ =>
    cases he : defineLength e d with
    | error f => exact .inl ⟨f, rfl, rfl⟩
    | ok e => exact .inr ⟨_, _, rfl, rfl, h.ofKind (.array e), .ofTable hh fun _ _ => rfl,
        .ofTable hh fun _ _ => rfl⟩
  · unfold defineEntry
    dsimp only
    rw [← found]
    split
    · split
      · exact .inr ⟨_, _, rfl, rfl, h.put hk _, .put hh hk _, .put hh hk _⟩
      · exact .inl ⟨_, rfl, rfl⟩
    · split
      · exact .inr ⟨_, _, rfl, rfl, h.put hk _, .put hh hk _, .put hh hk _⟩
      · exact .inl ⟨_, rfl, rfl⟩

theorem blindly_delete (hh : Key.Hideable hidden) (hk : hidden k = false) :
    Blindly (κ := κ) hidden (·.delete k) := by
  intro o o' h
  dsimp only
  unfold Object.delete
  rw [← h.place]
  split
  · exact .inr ⟨_, _, rfl, rfl, h.ofKind _, .ofTable hh fun _ _ => rfl, .ofTable hh fun _ _ => rfl⟩
  · exact .inl ⟨_, rfl, rfl⟩
  · rw [← h.find? hk]
    split
    · split
      · exact .inr ⟨_, _, rfl, rfl, h.erase k, .erase hh hk, .erase hh hk⟩
      · exact .inl ⟨_, rfl, rfl⟩
    · exact .inr ⟨_, _, rfl, rfl, h, .refl o, .refl o'⟩

end Object

/-! ## Heaps -/

/-- Graphs of objects that are equal but for properties under hidden keys. -/
structure Heap.Alike (hidden : Key → Bool) (h h' : Heap κ) : Prop where
  size : h.size = h'.size
  get (o : ObjectId) : (h.get o).Alike hidden (h'.get o)

/-- Along a run no property under a hidden key is made, changed or removed. -/
def Heap.Untouched (hidden : Key → Bool) (h h' : Heap κ) : Prop :=
  ∀ o, (h.get o).Untouched hidden (h'.get o)

namespace Heap

variable {h h' : Heap κ} {k : Key}

theorem Untouched.refl (h : Heap κ) : h.Untouched hidden h := fun o => .refl (h.get o)

theorem Untouched.trans {h'' : Heap κ} (a : h.Untouched hidden h') (b : h'.Untouched hidden h'') :
    h.Untouched hidden h'' :=
  fun o k hk => (b o k hk).trans (a o k hk)

theorem Untouched.set {o : ObjectId} {object : Object κ}
    (ho : (h.get o).Untouched hidden object) : h.Untouched hidden (h.set o object) := by
  intro p
  cases hc : h.contains o with
  | false =>
      rw [set_of_not_contains object hc]
      exact .refl _
  | true =>
      by_cases hp : p = o
      · subst hp
        rwa [get_set_self object hc]
      · rw [get_set_of_ne h object hp]
        exact .refl _

theorem Alike.contains (a : h.Alike hidden h') (o : ObjectId) : h.contains o = h'.contains o := by
  rw [Heap.contains, Heap.contains, a.size]

theorem Alike.set (a : h.Alike hidden h') {o : ObjectId} {object object' : Object κ}
    (ho : object.Alike hidden object') : (h.set o object).Alike hidden (h'.set o object') where
  size := by rw [size_set, size_set, a.size]
  get p := by
    cases hc : h.contains o with
    | false =>
        rw [set_of_not_contains object hc, set_of_not_contains object' (a.contains o ▸ hc)]
        exact a.get p
    | true =>
        by_cases hp : p = o
        · subst hp
          rwa [get_set_self object hc, get_set_self object' (a.contains p ▸ hc)]
        · rw [get_set_of_ne h object hp, get_set_of_ne h' object' hp]
          exact a.get p

/-! ## Lookup in alike graphs -/

theorem Alike.findUpTo (a : h.Alike hidden h') (hk : hidden k = false) (n : Nat) (o : ObjectId) :
    h.findUpTo n o k = h'.findUpTo n o k := by
  induction n generalizing o with
  | zero => rfl
  | succ n ih =>
      rw [Heap.findUpTo, Heap.findUpTo, (a.get o).getOwn hk, (a.get o).prototype]
      simp only [ih]

theorem Alike.find (a : h.Alike hidden h') (hk : hidden k = false) (o : ObjectId) :
    h.find o k = h'.find o k := by
  rw [Heap.find, Heap.find, a.size, a.findUpTo hk]

theorem Alike.findSlot (a : h.Alike hidden h') (hk : hidden k = false) (o : ObjectId) :
    h.findSlot o k = h'.findSlot o k := by
  rw [Heap.findSlot, Heap.findSlot, a.find hk]

theorem Alike.has (a : h.Alike hidden h') (hk : hidden k = false) (o : ObjectId) :
    h.has o k = h'.has o k := by
  rw [Heap.has, Heap.has, a.find hk]

theorem Alike.callable? (a : h.Alike hidden h') (v : Value) : h.callable? v = h'.callable? v := by
  simp only [Heap.callable?, fun o => (a.get o).isCallable]

theorem Alike.textWithin (a : h.Alike hidden h') (depth : Nat) (v : Value) :
    h.textWithin depth v = h'.textWithin depth v := by
  induction depth generalizing v with
  | zero => cases v <;> simp only [Heap.textWithin, fun o => (a.get o).kind]
  | succ depth ih => cases v <;> simp only [Heap.textWithin, fun o => (a.get o).kind, ih]

theorem Alike.key (a : h.Alike hidden h') (v : Value) : h.key v = h'.key v := by
  have text : h.text v = h'.text v := by rw [Heap.text, Heap.text, a.size, a.textWithin]
  unfold Heap.key
  split
  · rfl
  · rw [text]

end Heap

end Prototypal
