import Mathlib.Data.List.Sort
import Prototypal.Proofs.Assignment

/-!
# Marking methods

Marking takes the listed properties out of enumeration by defining each of them so.  An element of
an array is always enumerable, so it stays as it is; and where there was no property, the definition
makes one.  All else stays.
-/

namespace Prototypal

variable {κ σ : Type}

namespace Elements

theorem indices_sublist_put (e : Elements) (i : Nat) (v : Value) :
    e.indices.Sublist (e.put i v).indices := by
  have subset : e.indices ⊆ (e.put i v).indices := fun j hj => by
    by_cases h : j = i
    · exact h ▸ mem_indices_put_self e i v
    · rwa [mem_indices_iff, get?_put_of_ne e v h, ← mem_indices_iff]
  have distinct : e.indices.Nodup := e.pairwise_indices.imp Nat.ne_of_lt
  exact List.sublist_of_subperm_of_pairwise (List.subperm_of_subset distinct subset)
    e.pairwise_indices (pairwise_indices _)

theorem length_put_le_iff {e : Elements} {i n : Nat} {v : Value} :
    (e.put i v).length ≤ n ↔ e.length ≤ n ∧ i < n := Nat.max_le

end Elements

/-- A key that comes into a table comes last. -/
theorem Table.keys_put (t : Table) (k : Key) (p : Property) :
    ∃ new, new.Sublist [k] ∧ (t.put k p).keys = t.keys ++ new := by
  cases own : t.find? k with
  | none => exact ⟨[k], List.Sublist.refl _, keys_put_of_absent p own⟩
  | some q =>
      have present : (t.find? k).isSome := by rw [own]; rfl
      exact ⟨[], List.nil_sublist _, by rw [keys_put_of_present p present, List.append_nil]⟩

namespace Object

/-- The key belongs to an element of an array. -/
def isElement (o : Object κ) (k : Key) : Bool := o.elements?.isSome && k.index?.isSome

/-- The key belongs to the length of an array. -/
def isLength (o : Object κ) (k : Key) : Bool := o.elements?.isSome && k == .length

/-- The property that there is once a key was marked. -/
def marked (o : Object κ) (k : Key) : Property :=
  if o.isElement k then (o.getOwn k).getD (.data .undefined)
  else { (o.getOwn k).getD ⟨.data .undefined false, false, false⟩ with enumerable := false }

/-- Marks one method. -/
def mark (o : Object κ) (s : String) : Except Fault (Object κ) :=
  o.define (.text s) { enumerable := some false }

/-- A method can be marked if its property may leave enumeration or never was in it, or may come. -/
def Markable (o : Object κ) (s : String) : Prop :=
  match o.getOwn (.text s) with
  | some p => p.configurable = true ∨ p.enumerable = false
  | none => o.extensible = true

/-- The methods were marked.  The length of an array grows with an element that came. -/
structure Marked (o : Object κ) (names : List String) (o' : Object κ) : Prop where
  prototype : o'.prototype = o.prototype
  extensible : o'.extensible = o.extensible
  kind : o.elements? = none → o'.kind = o.kind
  listed {s : String} : s ∈ names → o.isLength (.text s) = false →
    o'.getOwn (.text s) = some (o.marked (.text s))
  unlisted {k : Key} : (∀ s ∈ names, k ≠ .text s) → o.isLength k = false →
    o'.getOwn k = o.getOwn k
  length {e : Elements} : o.elements? = some e → ∃ e', o'.elements? = some e' ∧
    ∀ n, e'.length ≤ n ↔ e.length ≤ n ∧ ∀ s ∈ names, ∀ i ∈ (Key.text s).index?, i < n
  keys : o.ownKeys.Sublist o'.ownKeys
  appended : ∃ new, new.Sublist (names.map .text) ∧ o'.table.keys = o.table.keys ++ new

/-- The listed properties left enumeration, and nothing else changed. -/
structure HidesOnly (o : Object κ) (names : List String) (o' : Object κ) : Prop where
  prototype : o'.prototype = o.prototype
  extensible : o'.extensible = o.extensible
  kind : o'.kind = o.kind
  listed {s : String} {p : Property} : s ∈ names → o.getOwn (.text s) = some p →
    o'.getOwn (.text s) = some { p with enumerable := false }
  unlisted {k : Key} : (∀ s ∈ names, k ≠ .text s) → o'.getOwn k = o.getOwn k
  keys : o'.ownKeys = o.ownKeys

variable {o o₁ o' : Object κ} {k : Key} {s : String} {names : List String}

/-! ## Elements and the length -/

theorem isElement_iff : o.isElement k = true ↔
    ∃ e i, o.kind = .array e ∧ k = .ofIndex i ∧ i ≤ Key.maxIndex := by
  simp only [isElement, Bool.and_eq_true, Option.isSome_iff_exists, elements?_eq_some_iff,
    Key.index?_eq_some_iff]
  constructor
  · rintro ⟨⟨e, he⟩, i, hi⟩
    exact ⟨e, i, he, hi⟩
  · rintro ⟨e, i, he, hi⟩
    exact ⟨⟨e, he⟩, i, hi⟩

theorem isLength_iff : o.isLength k = true ↔ ∃ e, o.kind = .array e ∧ k = .length := by
  simp [isLength, Option.isSome_iff_exists, elements?_eq_some_iff]

theorem isLength_of_isElement (h : o.isElement k = true) : o.isLength k = false := by
  obtain ⟨e, i, -, rfl, -⟩ := isElement_iff.1 h
  rw [Bool.eq_false_iff, Ne, isLength_iff]
  rintro ⟨-, -, same⟩
  exact Key.ofIndex_ne_length i same

theorem isElement_of_isLength (h : o.isLength k = true) : o.isElement k = false := by
  cases element : o.isElement k with
  | false => rfl
  | true => cases h.symm.trans (isLength_of_isElement element)

theorem isElement_of_place (place : o.place k = .entry) : o.isElement k = false := by
  rw [Bool.eq_false_iff, Ne, isElement_iff]
  rintro ⟨e, i, kind, rfl, bound⟩
  cases place.symm.trans (place_ofIndex kind bound)

theorem enumerable_of_isElement {p : Property} (h : o.isElement k = true)
    (hp : o.getOwn k = some p) : p.enumerable = true := by
  obtain ⟨e, i, kind, rfl, bound⟩ := isElement_iff.1 h
  rw [getOwn_ofIndex kind bound] at hp
  obtain ⟨v, -, rfl⟩ := Option.map_eq_some_iff.1 hp
  rfl

theorem getOwn_of_isLength (h : o.isLength k = true) :
    ∃ p, o.getOwn k = some p ∧ p.enumerable = false := by
  obtain ⟨e, kind, rfl⟩ := isLength_iff.1 h
  exact ⟨e.lengthProperty, by rw [getOwn, place_length kind], rfl⟩

theorem getOwn_congr_of_isLength (kind : o'.kind = o.kind) (h : o.isLength k = true) :
    o'.getOwn k = o.getOwn k := by
  obtain ⟨e, array, rfl⟩ := isLength_iff.1 h
  rw [getOwn, getOwn, place_length array, place_length (kind.trans array)]

/-! ## One method -/

theorem mark_element {e : Elements} {i : Nat} (ho : o.kind = .array e) (hi : i ≤ Key.maxIndex)
    (hs : Key.text s = .ofIndex i) : o.mark s =
      if (e.get? i).isNone && !o.extensible then .error (.notExtensible (.ofIndex i))
      else .ok { o with kind := .array (e.put i ((e.get? i).getD .undefined)) } := by
  rw [mark, hs, define_index ho hi]
  simp [Descriptor.isAccessor]

theorem mark_length {e : Elements} (ho : o.kind = .array e) (hs : Key.text s = .length) :
    o.mark s = .ok o := by
  simp only [mark, hs, define, place_length ho, defineLength, Except.map, ← ho]

theorem mark_entry (place : o.place (.text s) = .entry) : o.mark s =
    match o.table.find? (.text s) with
    | some p =>
      if p.configurable || !p.enumerable then .ok (o.put (.text s) { p with enumerable := false })
      else .error (.notRedefinable (.text s))
    | none =>
      if o.extensible then .ok (o.put (.text s) ⟨.data .undefined false, false, false⟩)
      else .error (.notExtensible (.text s)) := by
  simp only [mark, define, place, defineEntry, Object.put]
  cases o.table.find? (.text s) with
  | none => cases o.extensible <;> rfl
  | some p =>
      obtain ⟨slot, enumerable, configurable⟩ := p
      cases slot <;> cases enumerable <;> cases configurable <;> rfl

theorem marked_put_element {e : Elements} {i : Nat} (ho : o.kind = .array e)
    (hi : i ≤ Key.maxIndex) (hs : Key.text s = .ofIndex i) :
    o.Marked [s] { o with kind := .array (e.put i ((e.get? i).getD .undefined)) } where
  prototype := rfl
  extensible := rfl
  kind none := by cases none.symm.trans (elements?_of_kind ho)
  listed {t} ht _ := by
    obtain rfl := List.mem_singleton.1 ht
    have index : (Key.text t).index? = some i := Key.index?_eq_some_iff.2 ⟨hs, hi⟩
    rw [marked, if_pos (isElement_iff.2 ⟨e, i, ho, hs, hi⟩), getOwn_of_index rfl index,
      getOwn_of_index ho index, Elements.get?_put_self]
    cases e.get? i <;> rfl
  unlisted {k} hk hl := by
    refine getOwn_of_elements ho (fun j hj => Elements.get?_put_of_ne e _ ?_) fun length => ?_
    · rintro rfl
      exact hk s (List.mem_singleton_self s) ((Key.index?_eq_some_iff.1 hj).1.trans hs.symm)
    · cases hl.symm.trans (isLength_iff.2 ⟨e, ho, length⟩)
  length {e₀} he := by
    cases (elements?_of_kind ho).symm.trans he
    refine ⟨_, elements?_of_kind rfl, fun n => Elements.length_put_le_iff.trans ?_⟩
    simp [Key.index?_eq_some_iff.2 ⟨hs, hi⟩]
  keys := by
    rw [ownKeys_of_kind ho, ownKeys_of_kind rfl]
    exact ((Elements.indices_sublist_put e i _).map _).append_right _
  appended := ⟨[], List.nil_sublist _, (List.append_nil _).symm⟩

theorem marked_length {e : Elements} (ho : o.kind = .array e) (hs : Key.text s = .length) :
    o.Marked [s] o where
  prototype := rfl
  extensible := rfl
  kind _ := rfl
  listed {t} ht hl := by
    obtain rfl := List.mem_singleton.1 ht
    cases hl.symm.trans (isLength_iff.2 ⟨e, ho, hs⟩)
  unlisted _ _ := rfl
  length {e₀} he := by
    have index : Key.length.index? = none := by decide
    exact ⟨e₀, he, fun n => by simp [hs, index]⟩
  keys := List.Sublist.refl _
  appended := ⟨[], List.nil_sublist _, (List.append_nil _).symm⟩

theorem ownKeys_sublist {table : Table} (h : o.table.keys.Sublist table.keys) :
    o.ownKeys.Sublist ({ o with table } : Object κ).ownKeys := by
  unfold ownKeys
  cases o.kind with
  | array => exact (h.cons_cons _).append_left _
  | ordinary => exact h
  | function => exact h

theorem marked_put_entry (place : o.place (.text s) = .entry) :
    o.Marked [s] (o.put (.text s) (o.marked (.text s))) where
  prototype := rfl
  extensible := rfl
  kind _ := rfl
  listed {t} ht _ := by
    obtain rfl := List.mem_singleton.1 ht
    exact getOwn_put_self place _
  unlisted {k} hk _ := getOwn_put_of_ne o _ (hk s (List.mem_singleton_self s))
  length {e} he := by
    refine ⟨e, he, fun n => ?_⟩
    have index := (place_eq_entry_iff.1 place e (elements?_eq_some_iff.1 he)).1
    simp [index]
  keys := by
    obtain ⟨new, -, keys⟩ := Table.keys_put o.table (.text s) (o.marked (.text s))
    exact ownKeys_sublist (keys ▸ List.sublist_append_left _ new)
  appended := Table.keys_put ..

/-! ### Whether it can be marked -/

theorem markable_of_isLength (h : o.isLength (.text s) = true) : o.Markable s := by
  obtain ⟨p, own, hidden⟩ := getOwn_of_isLength h
  rw [Markable, own]
  exact .inr hidden

/-- A method is marked if it can be, and otherwise it is refused. -/
theorem mark_ends (o : Object κ) (s : String) :
    (o.Markable s ∧ ∃ o', o.mark s = .ok o' ∧ o.Marked [s] o') ∨
      ¬ o.Markable s ∧ ∃ f, o.mark s = .error f := by
  cases place : o.place (.text s) with
  | element e i =>
      obtain ⟨kind, index⟩ := of_place_eq_element place
      obtain ⟨hs, bound⟩ := Key.index?_eq_some_iff.1 index
      have markable : o.Markable s ↔ ((e.get? i).isNone && !o.extensible) = false := by
        rw [Markable, getOwn_of_index kind index]
        cases e.get? i <;> simp [Property.data]
      rw [markable, mark_element kind bound hs]
      cases (e.get? i).isNone && !o.extensible with
      | true => exact .inr ⟨by simp, _, rfl⟩
      | false => exact .inl ⟨rfl, _, rfl, marked_put_element kind bound hs⟩
  | length e =>
      obtain ⟨kind, hs⟩ := of_place_eq_length place
      exact .inl ⟨markable_of_isLength (isLength_iff.2 ⟨e, kind, hs⟩), o, mark_length kind hs,
        marked_length kind hs⟩
  | entry =>
      have own : o.getOwn (.text s) = o.table.find? (.text s) := by rw [getOwn, place]
      have put := marked_put_entry place
      rw [marked, isElement_of_place place, own] at put
      rw [Markable, own, mark_entry place]
      cases present : o.table.find? (.text s) with
      | none =>
          rw [present] at put
          cases extensible : o.extensible with
          | true => exact .inl ⟨rfl, _, rfl, put⟩
          | false => exact .inr ⟨by simp, _, rfl⟩
      | some p =>
          rw [present] at put
          by_cases free : p.configurable = true ∨ p.enumerable = false
          · exact .inl ⟨free, _, if_pos (by simpa using free), put⟩
          · exact .inr ⟨free, _, if_neg (by simpa using free)⟩

theorem markable_marked (h : o.Markable s) :
    (o.marked (.text s)).configurable = true ∨ (o.marked (.text s)).enumerable = false := by
  rw [marked]
  cases element : o.isElement (.text s) with
  | false => exact .inr rfl
  | true =>
      rw [Markable] at h
      cases own : o.getOwn (.text s) with
      | none => exact .inl rfl
      | some p =>
          rw [own] at h
          exact h

/-! ## Several methods -/

/-- Two laid-out arrays have the same elements if they have them under all indices. -/
theorem elements_eq {e e' : Elements} (l : o.LaidOut) (l' : o'.LaidOut) (kind : o.kind = .array e)
    (kind' : o'.kind = .array e') (length : e'.length = e.length)
    (h : ∀ i ≤ Key.maxIndex, e'.get? i = e.get? i) : e' = e := by
  refine Elements.ext_get? length fun i => ?_
  by_cases bound : i ≤ Key.maxIndex
  · exact h i bound
  · have beyond {o : Object κ} {e : Elements} (l : o.LaidOut) (kind : o.kind = .array e) :
        e.get? i = none := Option.not_isSome_iff_eq_none.1 fun present =>
      bound (l.le_maxIndex kind (Elements.mem_indices_iff.2 present))
    rw [beyond l kind, beyond l' kind']

namespace Marked

theorem refl (o : Object κ) : o.Marked [] o where
  prototype := rfl
  extensible := rfl
  kind _ := rfl
  listed h := nomatch h
  unlisted _ _ := rfl
  length {e} he := ⟨e, he, fun n => by simp⟩
  keys := List.Sublist.refl _
  appended := ⟨[], List.nil_sublist _, (List.append_nil _).symm⟩

theorem isArray (h : o.Marked names o') : o'.elements?.isSome = o.elements?.isSome := by
  cases array : o.elements? with
  | none =>
      have kind := h.kind array
      simpa only [elements?, kind] using congrArg Option.isSome array
  | some e =>
      obtain ⟨e', he', -⟩ := h.length array
      rw [he']
      rfl

theorem isElement (h : o.Marked names o') (k : Key) : o'.isElement k = o.isElement k := by
  rw [Object.isElement, h.isArray, Object.isElement]

theorem isLength (h : o.Marked names o') (k : Key) : o'.isLength k = o.isLength k := by
  rw [Object.isLength, h.isArray, Object.isLength]

/-- Marking again what was marked, or something else, marks the same. -/
theorem marked (h : o.Marked names o') {k : Key} (hk : o.isLength k = false) :
    o'.marked k = o.marked k := by
  rw [Object.marked, h.isElement]
  by_cases among : ∃ s ∈ names, k = .text s
  · obtain ⟨s, hs, rfl⟩ := among
    rw [h.listed hs hk]
    cases element : o.isElement (.text s) <;> simp [Object.marked, element]
  · rw [h.unlisted (fun s hs same => among ⟨s, hs, same⟩) hk, Object.marked]

theorem cons (first : o.Marked [s] o₁) (rest : o₁.Marked names o') : o.Marked (s :: names) o' where
  prototype := rest.prototype.trans first.prototype
  extensible := rest.extensible.trans first.extensible
  kind none := by
    have kind := first.kind none
    refine (rest.kind ?_).trans kind
    simpa only [elements?, kind] using none
  listed {t} ht hl := by
    have hl₁ := (first.isLength _).trans hl
    by_cases among : t ∈ names
    · rw [rest.listed among hl₁, first.marked hl]
    · obtain rfl : t = s := (List.mem_cons.1 ht).resolve_right among
      have apart : ∀ u ∈ names, Key.text t ≠ .text u := fun u hu same =>
        among (Key.text.inj same ▸ hu)
      rw [rest.unlisted apart hl₁, first.listed (List.mem_singleton_self t) hl]
  unlisted {k} hk hl := by
    rw [rest.unlisted (fun t ht => hk t (List.mem_cons_of_mem s ht)) ((first.isLength k).trans hl),
      first.unlisted (fun t ht => hk t (List.mem_singleton.1 ht ▸ List.mem_cons_self)) hl]
  length {e} he := by
    obtain ⟨e₁, he₁, grown₁⟩ := first.length he
    obtain ⟨e', he', grown⟩ := rest.length he₁
    refine ⟨e', he', fun n => ?_⟩
    rw [grown, grown₁]
    simp [and_assoc]
  keys := first.keys.trans rest.keys
  appended := by
    obtain ⟨new₁, listed₁, keys₁⟩ := first.appended
    obtain ⟨new, listed, keys⟩ := rest.appended
    exact ⟨new₁ ++ new, listed₁.append listed, by rw [keys, keys₁, List.append_assoc]⟩

/-- Marking does not change what can be marked. -/
theorem markable_iff (h : o.Marked names o') (ho : ∀ s ∈ names, o.Markable s) (s : String) :
    o'.Markable s ↔ o.Markable s := by
  cases length : o.isLength (.text s) with
  | true =>
      exact iff_of_true (markable_of_isLength ((h.isLength _).trans length))
        (markable_of_isLength length)
  | false =>
      by_cases among : s ∈ names
      · refine iff_of_true ?_ (ho s among)
        rw [Markable, h.listed among length]
        exact markable_marked (ho s among)
      · have apart : ∀ t ∈ names, Key.text s ≠ .text t := fun t ht same =>
          among (Key.text.inj same ▸ ht)
        rw [Markable, h.unlisted apart length, h.extensible, Markable]

/-- If no element was marked, the elements and the length stay. -/
theorem kind_eq (h : o.Marked names o') (l : o.LaidOut) (l' : o'.LaidOut)
    (none : ∀ s ∈ names, o.isElement (.text s) = false) : o'.kind = o.kind := by
  cases array : o.elements? with
  | none => exact h.kind array
  | some e =>
      obtain ⟨e', array', grown⟩ := h.length array
      have kind := elements?_eq_some_iff.1 array
      have kind' := elements?_eq_some_iff.1 array'
      have unnumbered : ∀ s ∈ names, (Key.text s).index? = .none := fun s hs => by
        simpa [Object.isElement, array] using none s hs
      have length : e'.length = e.length := by
        refine Nat.le_antisymm ((grown _).2 ⟨Nat.le_refl _, fun s hs i hi => ?_⟩)
          ((grown _).1 (Nat.le_refl _)).1
        cases (unnumbered s hs).symm.trans hi
      have elements (i : Nat) (bound : i ≤ Key.maxIndex) : e'.get? i = e.get? i := by
        have index : (Key.ofIndex i).index? = some i := Key.index?_eq_some_iff.2 ⟨rfl, bound⟩
        have same := h.unlisted (k := .ofIndex i)
          (fun s hs same => by cases (same ▸ unnumbered s hs).symm.trans index)
          (isLength_of_isElement (isElement_iff.2 ⟨e, i, kind, rfl, bound⟩))
        rw [getOwn_of_index kind index, getOwn_of_index kind' index] at same
        exact Option.map_injective (fun v v' => by simp [Property.data]) same
      rw [kind, kind', elements_eq l l' kind kind' length elements]

end Marked

theorem HidesOnly.listed_apart (hides : o.HidesOnly names o') (h : o.Marked names o')
    (l : o.LaidOut) (l' : o'.LaidOut) (hs : s ∈ names) :
    (o.getOwn (.text s)).isSome = true ∧ o.isElement (.text s) = false := by
  cases length : o.isLength (.text s) with
  | true =>
      obtain ⟨p, own, -⟩ := getOwn_of_isLength length
      exact ⟨by rw [own]; rfl, isElement_of_isLength length⟩
  | false =>
      have now := h.listed hs length
      have present : (o.getOwn (.text s)).isSome = true := by
        rw [← l.mem_ownKeys_iff, ← hides.keys, l'.mem_ownKeys_iff, now]
        rfl
      obtain ⟨p, own⟩ := Option.isSome_iff_exists.1 present
      refine ⟨present, Bool.eq_false_iff.2 fun element => ?_⟩
      -- An element would have stayed enumerable.
      have stays : o'.getOwn (.text s) = some p := by rw [now, marked, if_pos element, own]; rfl
      have hidden := congrArg Property.enumerable
        (Option.some.inj (stays.symm.trans (hides.listed hs own)))
      rw [enumerable_of_isElement element own] at hidden
      cases hidden

theorem Marked.hidesOnly (h : o.Marked names o') (l : o.LaidOut) (l' : o'.LaidOut)
    (plain : ∀ s ∈ names, (o.getOwn (.text s)).isSome = true ∧ o.isElement (.text s) = false) :
    o.HidesOnly names o' := by
  have kind := h.kind_eq l l' fun s hs => (plain s hs).2
  have unlisted {k : Key} (hk : ∀ s ∈ names, k ≠ .text s) : o'.getOwn k = o.getOwn k := by
    cases length : o.isLength k with
    | true => exact getOwn_congr_of_isLength kind length
    | false => exact h.unlisted hk length
  have listed {s : String} {p : Property} (hs : s ∈ names) (own : o.getOwn (.text s) = some p) :
      o'.getOwn (.text s) = some { p with enumerable := false } := by
    cases length : o.isLength (.text s) with
    | true =>
        obtain ⟨q, own', hidden⟩ := getOwn_of_isLength length
        cases own.symm.trans own'
        rw [getOwn_congr_of_isLength kind length, own, ← hidden]
    | false =>
        rw [h.listed hs length, Object.marked, (plain s hs).2, own]
        rfl
  have present : o'.ownKeys ⊆ o.ownKeys := fun k hk => by
    rw [l'.mem_ownKeys_iff] at hk
    rw [l.mem_ownKeys_iff]
    by_cases among : ∃ s ∈ names, k = .text s
    · obtain ⟨s, hs, rfl⟩ := among
      exact (plain s hs).1
    · rwa [unlisted fun s hs same => among ⟨s, hs, same⟩] at hk
  have keys := h.keys.eq_of_length_le (List.subperm_of_subset l'.nodup_ownKeys present).length_le
  exact ⟨h.prototype, h.extensible, kind, listed, unlisted, keys.symm⟩

/-- Marking does no more than hiding if all that was listed was there, and none of it an element. -/
theorem Marked.hidesOnly_iff (h : o.Marked names o') (l : o.LaidOut) (l' : o'.LaidOut) :
    o.HidesOnly names o' ↔
      ∀ s ∈ names, (o.getOwn (.text s)).isSome = true ∧ o.isElement (.text s) = false :=
  ⟨fun hides _ hs => hides.listed_apart h l l' hs, h.hidesOnly l l'⟩

end Object

/-! ## In the world -/

section

variable {w : World κ σ} {o : ObjectId} {names : List String}

theorem Class.markMethods_cons {s : String} {object : Object κ}
    (h : (w.heap.get o).mark s = .ok object) (names : List String) :
    markMethods o (s :: names) w =
      markMethods o names { w with heap := w.heap.set o object } := by
  rw [markMethods, List.forM, bind_assoc]
  exact Run.bind_of_value
    (Run.change_of_ok (f := (·.define (.text s) { enumerable := some false })) h)

/-- The methods are marked one after the other, up to the first that cannot be. -/
theorem Class.markMethods_ends (l : (w.heap.get o).LaidOut) (names : List String) :
    (∃ after, after.LaidOut ∧ (∀ s ∈ names, (w.heap.get o).Markable s) ∧
      (w.heap.get o).Marked names after ∧
      markMethods o names w = .value o { w with heap := w.heap.set o after }) ∨
    ∃ done s rest after f, names = done ++ s :: rest ∧ ¬ (w.heap.get o).Markable s ∧
      (w.heap.get o).Marked done after ∧ f.kind = .type ∧
      markMethods o names w = .fault f { w with heap := w.heap.set o after } := by
  induction names generalizing w with
  | nil =>
      refine .inl ⟨w.heap.get o, l, nofun, .refl _, ?_⟩
      rw [Heap.set_get]
      rfl
  | cons s names ih =>
      rcases (w.heap.get o).mark_ends s with
        ⟨markable, object, marked, first⟩ | ⟨markable, f, refused⟩
      · have get := Heap.get_set_self object (Heap.contains_of_define marked)
        have stays := first.markable_iff fun t ht => List.mem_singleton.1 ht ▸ markable
        rw [markMethods_cons marked]
        rcases @ih { w with heap := w.heap.set o object } (get.symm ▸ l.define marked) with
          ⟨after, laidOut, all, others, run⟩ | ⟨done, t, rest, after, f, rfl, ht, others, hf, run⟩
        · rw [get] at all others
          rw [Heap.set_set] at run
          exact .inl ⟨after, laidOut, List.forall_mem_cons.2
            ⟨markable, fun t ht => (stays t).1 (all t ht)⟩, first.cons others, run⟩
        · rw [get] at ht others
          rw [Heap.set_set] at run
          exact .inr ⟨s :: done, t, rest, after, f, rfl, mt (stays t).2 ht, first.cons others, hf,
            run⟩
      · refine .inr ⟨[], s, names, w.heap.get o, f, rfl, markable, .refl _,
          Object.kind_of_define_eq_error refused, ?_⟩
        rw [Heap.set_get, markMethods, List.forM, bind_assoc]
        exact Run.bind_of_fault (Run.change_of_error
          (f := (·.define (.text s) { enumerable := some false })) refused)

/-- Marking gives the object, the only part of the world that it changes, or it is refused with an
error of type once it comes to a method that cannot be marked.  It does no more than taking the
listed properties out of enumeration exactly if all of them are there and none is an element. -/
theorem World.Reached.marks_methods (hw : w.Reached) (exec : Exec κ σ) (n : Nat) (o : ObjectId)
    (names : List String) :
    (∃ after, (∀ s ∈ names, (w.heap.get o).Markable s) ∧
      perform exec n (.markMethods o names) w =
        .value o { w with heap := w.heap.set o after } ∧
      (w.heap.get o).Marked names after ∧
      ((w.heap.get o).HidesOnly names after ↔ ∀ s ∈ names,
        ((w.heap.get o).getOwn (.text s)).isSome = true ∧
          (w.heap.get o).isElement (.text s) = false)) ∨
    ∃ done s rest after f, names = done ++ s :: rest ∧ ¬ (w.heap.get o).Markable s ∧
      perform exec n (.markMethods o names) w =
        .fault f { w with heap := w.heap.set o after } ∧
      (w.heap.get o).Marked done after ∧ f.kind = .type := by
  have l := hw.laidOut o
  rcases Class.markMethods_ends l names with
    ⟨after, laidOut, all, marked, run⟩ | ⟨done, s, rest, after, f, split, hs, marked, hf, run⟩
  · exact .inl ⟨after, all, run, marked, marked.hidesOnly_iff l laidOut⟩
  · exact .inr ⟨done, s, rest, after, f, split, hs, run, marked, hf⟩

/-- An element stays enumerable, a property of the table leaves enumeration, and one comes up where
there was none. -/
theorem World.Reached.marks_methods_apart :
    ∃ (w : World Unit Unit) (after : Object Unit), w.Reached ∧
      perform (fun _ _ => Run.exhausted) 0 (.markMethods ⟨0⟩ ["0", "a", "b"]) w =
        .value ⟨0⟩ { w with heap := w.heap.set ⟨0⟩ after } ∧
      after.getOwn (.text "0") = some (.data .null) ∧
      after.getOwn (.text "a") = some (.hidden .null) ∧
      (w.heap.get ⟨0⟩).getOwn (.text "b") = none ∧
      after.getOwn (.text "b") = some ⟨.data .undefined false, false, false⟩ ∧
      ¬ (w.heap.get ⟨0⟩).HidesOnly ["0", "a", "b"] after := by
  obtain ⟨w, reached, facts⟩ := World.exists_reached (fun _ _ => .done (.ok .null)) 0
    (.ask (.newArray [.null] none) fun _ => .ask (.define ⟨0⟩ (.text "a") (.data .null)) fun _ =>
      .ask .newKey fun _ => .done (.ok .null))
    (.initial id) () (fun w : World Unit Unit =>
      let o := w.heap.get ⟨0⟩
      (o.elements?.isSome, o.extensible, o.getOwn (.text "0"), o.getOwn (.text "a"),
        o.getOwn (.text "b")))
    (show _ = some (true, true, some (.data .null), some (.data .null), none) by decide +kernel)
  simp only [Prod.mk.injEq] at facts
  obtain ⟨array, extensible, zero, a, b⟩ := facts
  have index : (Key.text "0").index?.isSome = true ∧ (Key.text "a").index?.isSome = false ∧
      (Key.text "b").index?.isSome = false := by decide
  have apart : Key.text "0" ≠ .length ∧ Key.text "a" ≠ .length ∧ Key.text "b" ≠ .length := by decide
  have markable : ∀ s ∈ ["0", "a", "b"], (w.heap.get ⟨0⟩).Markable s := by
    simp [Object.Markable, zero, a, b, extensible, Property.data]
  rcases reached.marks_methods (fun _ _ => Run.exhausted) 0 ⟨0⟩ ["0", "a", "b"] with
    ⟨after, -, run, marked, hides⟩ | ⟨done, s, rest, after, f, split, hs, -⟩
  · refine ⟨w, after, reached, run, ?_, ?_, b, ?_, fun only => ?_⟩
    · rw [marked.listed (by simp) (by simp [Object.isLength, apart])]
      simp [Object.marked, Object.isElement, array, index, zero]
    · rw [marked.listed (by simp) (by simp [Object.isLength, apart])]
      simp [Object.marked, Object.isElement, index, a, Property.data, Property.hidden]
    · rw [marked.listed (by simp) (by simp [Object.isLength, apart])]
      simp [Object.marked, Object.isElement, index, b]
    · have present := (hides.1 only "b" (by simp)).1
      rw [b] at present
      cases present
  · exact absurd (markable s (by rw [split]; simp)) hs

end

end Prototypal
