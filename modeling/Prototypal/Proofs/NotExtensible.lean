import Prototypal.Proofs.Class
import Prototypal.Proofs.Entry
import Prototypal.Proofs.Machine

/-!
# Objects that take no new properties

Where an object takes no new properties, every definition under a new key is refused, and no run
brings a key up, with one exception: an array takes what is appended to it all the same.
-/

namespace Prototypal

variable {κ σ α : Type}

/-! ## One object -/

namespace Elements

theorem indices_subset {e f : Elements} (h : ∀ i, (f.get? i).isSome → (e.get? i).isSome) :
    f.indices ⊆ e.indices :=
  fun i hi => mem_indices_iff.2 (h i (mem_indices_iff.1 hi))

theorem indices_put_of_present {e : Elements} {i : Nat} (v : Value) (h : (e.get? i).isSome) :
    (e.put i v).indices ⊆ e.indices := by
  refine indices_subset fun j hj => ?_
  by_cases hji : j = i
  · exact hji ▸ h
  · rwa [get?_put_of_ne e v hji] at hj

theorem indices_erase (e : Elements) (i : Nat) : (e.erase i).indices ⊆ e.indices := by
  refine indices_subset fun j hj => ?_
  by_cases hji : j = i
  · subst hji
    simp [get?_erase_self] at hj
  · rwa [get?_erase_of_ne e hji] at hj

theorem indices_resize (e : Elements) (n : Nat) : (e.resize n).indices ⊆ e.indices := by
  refine indices_subset fun j hj => ?_
  rw [get?_resize] at hj
  split at hj
  · exact hj
  · cases hj

theorem mem_indices_put_self (e : Elements) (i : Nat) (v : Value) : i ∈ (e.put i v).indices :=
  mem_indices_iff.2 (by rw [get?_put_self]; rfl)

end Elements

namespace Object

/-- What becomes of an object that takes no new properties: no key comes up and an absent property
stays absent, but for elements of an array if it may be `appended` to. -/
structure Confined (appended : Prop) (o o' : Object κ) : Prop where
  notExtensible : o'.extensible = false
  isArray : o'.elements?.isSome = o.elements?.isSome
  keys {k : Key} : k ∈ o'.ownKeys →
    k ∈ o.ownKeys ∨ appended ∧ o.elements?.isSome = true ∧ ∃ i, k = .ofIndex i
  absent {k : Key} : o.getOwn k = none → (appended → k.index? = none) → o'.getOwn k = none

variable {appended : Prop} {o o' : Object κ}

theorem elements?_of_kind {elements : Elements} (h : o.kind = .array elements) :
    o.elements? = some elements := by
  simp [elements?, h]

theorem ownKeys_of_kind {elements : Elements} (h : o.kind = .array elements) :
    o.ownKeys = elements.indices.map .ofIndex ++ Key.length :: o.table.keys := by
  simp [ownKeys, h]

theorem getOwn_of_index {elements : Elements} {k : Key} {i : Nat} (h : o.kind = .array elements)
    (hi : k.index? = some i) : o.getOwn k = (elements.get? i).map .data := by
  simp only [getOwn, place, h, hi]

theorem getOwn_of_not_index {elements : Elements} {k : Key} (h : o.kind = .array elements)
    (hi : k.index? = none) :
    o.getOwn k = if k = .length then some elements.lengthProperty else o.table.find? k := by
  simp only [getOwn, place, h, hi]
  by_cases hk : k = .length <;> simp only [hk, if_true, if_false]

namespace Confined

theorem refl (h : o.extensible = false) : o.Confined appended o := ⟨h, rfl, .inl, fun hk _ => hk⟩

theorem trans {o'' : Object κ} (h : o.Confined appended o') (h' : o'.Confined appended o'') :
    o.Confined appended o'' where
  notExtensible := h'.notExtensible
  isArray := h'.isArray.trans h.isArray
  keys hk := by
    rcases h'.keys hk with hk | ⟨ha, hs, hi⟩
    · exact h.keys hk
    · exact .inr ⟨ha, h.isArray ▸ hs, hi⟩
  absent hk ha := h'.absent (h.absent hk ha) ha

/-- The elements of an array are replaced, and what is new among them was appended. -/
theorem ofElements {old new : Elements} (hx : o.extensible = false) (ho : o.kind = .array old)
    (h : ∀ i ∈ new.indices, i ∈ old.indices ∨ appended) :
    o.Confined appended { o with kind := .array new } where
  notExtensible := hx
  isArray := by rw [elements?_of_kind ho, elements?_of_kind rfl]; rfl
  keys {k} hk := by
    rw [ownKeys_of_kind rfl] at hk
    rw [ownKeys_of_kind ho, elements?_of_kind ho]
    simp only [List.mem_append, List.mem_map] at hk ⊢
    rcases hk with ⟨i, hi, rfl⟩ | hk
    · rcases h i hi with hi | ha
      · exact .inl (.inl ⟨i, hi, rfl⟩)
      · exact .inr ⟨ha, rfl, i, rfl⟩
    · exact .inl (.inr hk)
  absent {k} hk ha := by
    cases hi : k.index? with
    | none =>
        rw [getOwn_of_not_index ho hi] at hk
        rw [getOwn_of_not_index rfl hi]
        split at hk <;> simp_all
    | some i =>
        rw [getOwn_of_index ho hi] at hk
        rw [getOwn_of_index rfl hi, Option.map_eq_none_iff]
        refine Option.not_isSome_iff_eq_none.1 fun present => ?_
        rcases h i (Elements.mem_indices_iff.2 present) with h | h
        · simp_all [Elements.mem_indices_iff]
        · exact nomatch hi.symm.trans (ha h)

/-- The table of an object is replaced, and no entry is new. -/
theorem ofTable {table : Table} (hx : o.extensible = false)
    (h : ∀ k, o.table.find? k = none → table.find? k = none) :
    o.Confined appended { o with table } where
  notExtensible := hx
  isArray := rfl
  keys {k} hk := by
    have keys : table.keys ⊆ o.table.keys := fun j hj => by
      rw [Table.mem_keys_iff, ← Option.ne_none_iff_isSome] at hj ⊢
      exact mt (h j) hj
    refine .inl ?_
    cases ho : o.kind with
    | array elements =>
        rw [ownKeys_of_kind (o := { o with table }) ho] at hk
        rw [ownKeys_of_kind ho]
        simp only [List.mem_append, List.mem_cons] at hk ⊢
        exact hk.imp_right (Or.imp_right (@keys k))
    | ordinary =>
        simp only [ownKeys, ho] at hk ⊢
        exact keys hk
    | function =>
        simp only [ownKeys, ho] at hk ⊢
        exact keys hk
  absent {k} hk _ := by
    have place : ({ o with table } : Object κ).place k = o.place k := rfl
    unfold getOwn at hk ⊢
    rw [place]
    split at hk
    · exact hk
    · exact hk
    · exact h k hk

theorem put {k : Key} {p q : Property} (hx : o.extensible = false)
    (h : o.table.find? k = some p) : o.Confined appended { o with table := o.table.put k q } := by
  refine ofTable hx fun j hj => ?_
  have hjk : j ≠ k := by
    rintro rfl
    cases h.symm.trans hj
  rw [Table.find?_put_of_ne _ _ hjk, hj]

/-- A definition that is accepted is of a property that is there. -/
theorem define {k : Key} {d : Descriptor} (hx : o.extensible = false)
    (h : o.define k d = .ok o') : o.Confined appended o' := by
  unfold Object.define at h
  split at h
  · next elements i hk =>
    obtain ⟨new, hn, rfl⟩ := except_map_eq_ok_iff.1 h
    refine ofElements hx (of_place_eq_element hk).1 fun j hj => .inl ?_
    unfold defineElement at hn
    dsimp only at hn
    split at hn
    · cases hn
    · split at hn
      · cases hn
      · next present =>
        cases hn
        refine Elements.indices_put_of_present _ ?_ hj
        simpa [hx, Option.isSome_iff_ne_none] using present
  · next elements hk =>
    obtain ⟨new, hn, rfl⟩ := except_map_eq_ok_iff.1 h
    refine ofElements hx (of_place_eq_length hk).1 fun j hj => .inl ?_
    unfold defineLength at hn
    split at hn
    · cases hn
      exact hj
    · split at hn
      · cases hn
        exact Elements.indices_resize _ _ hj
      · cases hn
  · next hk =>
    obtain ⟨table, ht, rfl⟩ := except_map_eq_ok_iff.1 h
    unfold defineEntry at ht
    split at ht
    · rw [hx] at ht
      cases ht
    · next p present =>
      split at ht
      · cases ht
        exact put hx present
      · cases ht

theorem delete {k : Key} (hx : o.extensible = false) (h : o.delete k = .ok o') :
    o.Confined appended o' := by
  unfold Object.delete at h
  split at h
  · next elements i hk =>
    cases h
    exact ofElements hx (of_place_eq_element hk).1 fun j hj => .inl (Elements.indices_erase _ _ hj)
  · cases h
  · split at h
    · split at h
      · cases h
        refine ofTable hx fun j hj => ?_
        by_cases hjk : j = k
        · exact hjk ▸ Table.find?_erase_self ..
        · rw [Table.find?_erase_of_ne _ hjk, hj]
      · cases h
    · cases h
      exact .refl hx

/-- Appending does not ask whether the array takes new properties. -/
theorem push {v : Value} {n : Nat} (hx : o.extensible = false) (ha : appended)
    (h : o.push v = .ok (n, o')) : o.Confined appended o' := by
  obtain ⟨old, new, ho, rfl⟩ := push_cases h
  exact ofElements hx ho fun _ _ => .inr ha

end Confined

/-- Definitions are refused with an error of type. -/
theorem kind_of_define_eq_error {k : Key} {d : Descriptor} {f : Fault}
    (h : o.define k d = .error f) : f.kind = .type := by
  unfold define at h
  split at h
  · have h := except_map_eq_error_iff.1 h
    unfold defineElement at h
    dsimp only at h
    split at h
    · cases h
      rfl
    · split at h <;> cases h
      rfl
  · have h := except_map_eq_error_iff.1 h
    unfold defineLength at h
    split at h
    · cases h
    · split at h <;> cases h
      rfl
  · have h := except_map_eq_error_iff.1 h
    unfold defineEntry at h
    split at h
    · split at h <;> cases h
      rfl
    · split at h <;> cases h
      rfl

/-- Where an object takes no new properties, a definition under a new key is refused. -/
theorem define_of_absent {k : Key} (hx : o.extensible = false) (hk : o.getOwn k = none)
    (d : Descriptor) : ∃ f, f.kind = .type ∧ o.define k d = .error f := by
  unfold getOwn at hk
  unfold define
  split at hk
  · next elements i _ =>
    have absent : elements.get? i = none := Option.map_eq_none_iff.1 hk
    cases hd : d.isAccessor with
    | true => exact ⟨.accessorElement i, rfl, by simp [defineElement, hd, Except.map]⟩
    | false =>
        exact ⟨.notExtensible (.ofIndex i), rfl, by
          simp [defineElement, hd, absent, hx, Except.map]⟩
  · cases hk
  · exact ⟨.notExtensible k, rfl, by simp [defineEntry, hk, hx, Except.map]⟩

end Object

/-! ## The heap -/

namespace Heap

/-- A step leaves an object that takes no new properties confined. -/
def Confines (appended : Prop) (o : ObjectId) (h h' : Heap κ) : Prop :=
  h.contains o = true → (h.get o).extensible = false →
    h'.contains o = true ∧ (h.get o).Confined appended (h'.get o)

variable {appended : Prop} {o : ObjectId}

theorem Confines.set {h : Heap κ} {q : ObjectId} {object : Object κ}
    (hq : (h.get q).extensible = false → q = o → (h.get q).Confined appended object) :
    Confines appended o h (h.set q object) := by
  intro hc hx
  refine ⟨by rwa [contains_set], ?_⟩
  by_cases hqo : o = q
  · subst hqo
    rw [get_set_self object hc]
    exact hq hx rfl
  · rw [get_set_of_ne h object hqo]
    exact .refl hx

theorem confines_covers : Covers (Confines (κ := κ) appended o) where
  define _ he := .set fun hx _ => .define hx he
  delete he := .set fun hx _ => .delete hx he
  preventExtensions := .set fun _ _ => ⟨rfl, rfl, .inl, fun hk _ => hk⟩
  setPrototype _ := .set fun hx _ => ⟨hx, rfl, .inl, fun hk _ => hk⟩
  allocate {h object} _ _ hc hx := by
    refine ⟨contains_allocate object hc, ?_⟩
    rw [get_allocate_of_contains object hc]
    exact .refl hx

theorem confines_copies : Copies (Confines (κ := κ) appended o) :=
  fun _ he => .set fun hx _ => .define hx he

end Heap

/-! ## Requests -/

/-- A request asks to append to an array. -/
def Request.Appends (o : ObjectId) : Request κ α → Prop
  | .push q _ => q = o
  | _ => False

theorem Request.within_confines {appended : Prop} {o : ObjectId} {r : Request κ α}
    (hr : r.Appends o → appended) : r.Within (Heap.Confines appended o) := by
  have defined {q : ObjectId} {k : Key} {d : Descriptor} :
      Heap.Permits (Heap.Confines (κ := κ) appended o) q k d :=
    fun he => .set fun hx _ => .define hx he
  cases r with
  | push => exact fun {_ _ _} he => .set fun hx hq => .push hx (hr hq) he
  | define => exact fun {_ _} => defined
  | set | accessSet | accessDefine => exact fun _ _ {_ _} => defined
  | computedSet => exact fun _ _ _ {_ _} => defined
  | createClass => exact fun {_ _ _ _ _ _} => Heap.confines_copies
  | _ => trivial

/-- Assignment on the chain of an object finds no setter. -/
def Heap.NoSetter (h : Heap κ) (o : ObjectId) (k : Key) : Prop :=
  ∀ getter setter, h.findSlot o k ≠ some (.accessor getter (some setter))

/-- The request is to store a property `k` of `o` itself, as it turns out in the world `w'`: that is
`w`, unless a getter was asked for the function that takes the access over. -/
def Request.Stores (exec : Exec κ σ) (w w' : World κ σ) (o : ObjectId) (k : Key) :
    Request κ α → Prop
  | .define p j _ => p = o ∧ j = k ∧ w' = w
  | .set p j _ receiver => receiver = .object o ∧ j = k ∧ w' = w ∧ w.heap.NoSetter p k
  | .accessDefine owner j _ => owner = .object o ∧ j = k ∧ k.isReserved = false ∧ w' = w
  | .accessSet owner j _ =>
    owner = .object o ∧ j = k ∧ k.isReserved = false ∧ w' = w ∧ w.heap.NoSetter o k
  | .computedSet owner key _ =>
    owner = .object o ∧ w'.heap.key key = k ∧ k.isReserved = false ∧ w'.heap.NoSetter o k ∧
      ComputedAccess.trap exec owner w.wellKnown.elementSet w = .value none w'
  | .createClass _ members parent =>
    members = o ∧ k = .constructor ∧ w' = w ∧ (parent = .null ∨ ∃ p, parent = .object p)
  | .markGenerator p => p = o ∧ k = .name w.wellKnown.generator ∧ w' = w
  | _ => False

/-! ## New keys are refused -/

section
variable {exec : Exec κ σ} {w w' : World κ σ} {o : ObjectId} {k : Key}

/-- A run fails with an error of type, and leaves the world as given. -/
def Run.Refuses (x : Run κ σ α) (w w' : World κ σ) : Prop :=
  ∃ f, f.kind = .type ∧ x w = .fault f w'

theorem Run.Refuses.bind {β : Type} {x : Run κ σ α} (h : x.Refuses w w') (f : α → Run κ σ β) :
    (x >>= f).Refuses w w' := by
  obtain ⟨e, he, hx⟩ := h
  exact ⟨e, he, Run.bind_of_fault hx⟩

/-- A run that begins with another part refuses if the rest does. -/
theorem Run.Refuses.after {β : Type} {x : Run κ σ α} {f : α → Run κ σ β} {v : World κ σ} {a : α}
    (hx : x w = .value a v) (h : (f a).Refuses v w') : (x >>= f).Refuses w w' := by
  obtain ⟨e, he, hf⟩ := h
  exact ⟨e, he, (Run.bind_of_value hx).trans hf⟩

theorem refuses_define (hx : (w.heap.get o).extensible = false)
    (hk : (w.heap.get o).getOwn k = none) (d : Descriptor) :
    (Run.change o (·.define k d)).Refuses w w := by
  obtain ⟨f, hf, he⟩ := Object.define_of_absent hx hk d
  exact ⟨f, hf, Run.change_of_error (f := (·.define k d)) he⟩

theorem refuses_set {p : ObjectId} (hx : (w.heap.get o).extensible = false)
    (hk : (w.heap.get o).getOwn k = none) (hs : w.heap.NoSetter p k) (v : Value) :
    (Member.set exec p k v (.object o)).Refuses w w := by
  have stored : (Member.store (.object o) k v).Refuses w w := by
    refine .after (a := w.heap.get o) rfl ?_
    rw [hk]
    exact refuses_define hx hk _
  refine .after (a := w.heap.findSlot p k) rfl ?_
  match found : w.heap.findSlot p k with
  | some (.accessor getter (some setter)) => exact absurd found (hs getter setter)
  | some (.accessor _ none) => exact ⟨_, rfl, rfl⟩
  | some (.data _ false) => exact ⟨_, rfl, rfl⟩
  | some (.data _ true) => exact stored
  | none => exact stored

theorem refuses_accessSet (hx : (w.heap.get o).extensible = false)
    (hk : (w.heap.get o).getOwn k = none) (hr : k.isReserved = false) (hs : w.heap.NoSetter o k)
    (v : Value) : (Access.set exec (.object o) k v).Refuses w w := by
  unfold Access.set
  rw [hr]
  refine .after (a := w.heap.has o k) rfl ?_
  split
  · exact refuses_define hx hk _
  · exact refuses_set hx hk hs v

theorem refuses_accessDefine (hx : (w.heap.get o).extensible = false)
    (hk : (w.heap.get o).getOwn k = none) (hr : k.isReserved = false) (d : Descriptor) :
    (Access.define (.object o) k d).Refuses w w := by
  unfold Access.define
  simp only [hr, Bool.false_eq_true, if_false]
  split
  · exact refuses_define hx hk _
  · exact refuses_define hx hk _

/-- A request that is to store a property that an object without new properties does not have is
refused. -/
theorem Request.Stores.refuses {r : Request κ α} (h : r.Stores exec w w' o k) (n : Nat)
    (hx : (w'.heap.get o).extensible = false) (hk : (w'.heap.get o).getOwn k = none) :
    (perform exec n r).Refuses w w' := by
  cases r with
  | define p j d =>
      obtain ⟨rfl, rfl, rfl⟩ := h
      exact refuses_define hx hk d
  | set p j v receiver =>
      obtain ⟨rfl, rfl, rfl, hs⟩ := h
      exact refuses_set hx hk hs v
  | accessDefine owner j d =>
      obtain ⟨rfl, rfl, hr, rfl⟩ := h
      exact refuses_accessDefine hx hk hr d
  | accessSet owner j v =>
      obtain ⟨rfl, rfl, hr, rfl, hs⟩ := h
      exact refuses_accessSet hx hk hr hs v
  | computedSet owner key v =>
      obtain ⟨rfl, rfl, hr, hs, ht⟩ := h
      refine .after (a := w.wellKnown) rfl (.after ht ?_)
      exact .after (a := w'.heap.key key) rfl ((refuses_accessSet hx hk hr hs v).bind _)
  | createClass constructor members parent =>
      obtain ⟨rfl, rfl, rfl, rfl | ⟨p, rfl⟩⟩ := h
      · exact (refuses_define hx hk _).bind _
      · exact (refuses_define hx hk _).bind _
  | markGenerator p =>
      obtain ⟨rfl, rfl, rfl⟩ := h
      exact refuses_define hx hk _
  | _ => cases h

/-- One of several methods is missing: those before it are marked, and then it is refused. -/
theorem refuses_markMethods {names : List String} {s : String} (hs : s ∈ names)
    (ho : w.heap.contains o = true) (hx : (w.heap.get o).extensible = false)
    (hk : (w.heap.get o).getOwn (.text s) = none) :
    ∃ w', (Class.markMethods o names).Refuses w w' := by
  induction names generalizing w with
  | nil => cases hs
  | cons t names ih =>
      rw [Class.markMethods, List.forM, bind_assoc]
      match hd : (w.heap.get o).define (.text t) { enumerable := some false } with
      | .error f => exact ⟨w, .bind ⟨f, Object.kind_of_define_eq_error hd,
          Run.change_of_error (f := (·.define (.text t) { enumerable := some false })) hd⟩ _⟩
      | .ok object =>
          have kept : (w.heap.get o).Confined False object := .define hx hd
          have get := Heap.get_set_self object ho
          have hs : s ∈ names := by
            rcases List.mem_cons.1 hs with rfl | hs
            · obtain ⟨f, -, hf⟩ := Object.define_of_absent hx hk { enumerable := some false }
              exact nomatch hd.symm.trans hf
            · exact hs
          obtain ⟨w', h⟩ := @ih { w with heap := w.heap.set o object } hs
            (by rwa [Heap.contains_set])
            ((congrArg Object.extensible get).trans kept.notExtensible)
            ((congrArg (Object.getOwn · (.text s)) get).trans (kept.absent hk nofun))
          exact ⟨w', .after (Run.change_of_ok (f := (·.define (.text t) _)) hd) h⟩

end

/-! ## Along a run -/

section
variable {w : World κ σ} {o : ObjectId}

/-- The object was made, and is confined since. -/
def Heap.Kept (appended : Prop) (o : ObjectId) (object : Object κ) (h : Heap κ) : Prop :=
  h.contains o = true ∧ object.Confined appended (h.get o)

theorem Heap.Kept.step {appended : Prop} {object : Object κ} {h h' : Heap κ}
    (k : h.Kept appended o object) (s : Confines appended o h h') : h'.Kept appended o object := by
  obtain ⟨contained, confined⟩ := s k.1 k.2.notExtensible
  exact ⟨contained, k.2.trans confined⟩

/-- An object is kept by all code that runs, and may be appended to. -/
theorem keptInStep (o : ObjectId) (object : Object κ) :
    FullLockstep (Heap.Confines True o)
      (Run.Both fun w : World κ σ => w.heap.Kept True o object) :=
  .ofHeap Heap.confines_covers Heap.Kept.step

theorem keptInStep_execute (object : Object κ) (client : Client κ σ) (n : Nat) :
    Lockstep.ExecAgree (Run.Both fun w => w.heap.Kept True o object) (execute client n)
      (execute client n) :=
  (keptInStep o object).execute (fun h => by rw [h.1]) (fun _ h => ⟨by rw [h.1], h.2⟩)
    (fun _ _ => (Program.all_true _).mono fun _ => Request.within_confines fun _ => trivial) n

/-- A constructor without a `prototype` that takes no new properties becomes no class. -/
theorem createClass_ne_value (ho : w.heap.contains o = true)
    (hx : (w.heap.get o).extensible = false) (hk : (w.heap.get o).getOwn .prototype = none)
    (client : Client κ σ) (n : Nat) (members : ObjectId) (parent : Value) (c : ObjectId)
    (w' : World κ σ) : Class.create (execute client n) o members parent w ≠ .value c w' := by
  intro h
  have L := keptInStep (σ := σ) o (w.heap.get o)
  have he := keptInStep_execute (o := o) (w.heap.get o) client n
  have start : w.heap.Kept True o (w.heap.get o) := ⟨ho, .refl hx⟩
  obtain ⟨-, above, prototype, linked, inherited, copied, h⟩ := Class.create_eq_value h
  -- What comes before the definition of the prototype keeps the constructor without one.
  have kept₁ := (Run.keeps_iff_agree.2 (L.defineDiscreet (.onlyValue _))).of_value start h.link
  have kept₂ := (Run.keeps_iff_agree.2 (L.inheritFrom he o _)).of_value kept₁ h.inherit
  have kept₃ := (Run.keeps_iff_agree.2
    (L.copyOnto Heap.confines_copies above members)).of_value kept₂ h.copy
  obtain ⟨f, -, refused⟩ := refuses_define kept₃.2.notExtensible
    (kept₃.2.absent hk fun _ => by decide) (.onlyValue (.object prototype))
  exact nomatch refused.symm.trans h.close

/-- Why a class fails to be made: for a reason of type, or because the getter fails that is found
for the `prototype` of its parent, once the constructor inherits from the parent. -/
inductive Class.Fails (exec : Exec κ σ) (constructor members : ObjectId) (w : World κ σ) :
    Value → Fault → World κ σ → Prop where
  | type {parent : Value} {f : Fault} {w' : World κ σ} (h : f.surfaceName = "TypeError") :
      Fails exec constructor members w parent f w'
  | getter {p getter : ObjectId} {setter : Option ObjectId} {v w' : World κ σ} {f : Fault}
      (linked : (do Run.change members (·.define .constructor (.onlyValue (.object constructor)))
                    Run.setPrototype constructor (some p) : Run κ σ Unit) w = .value () v)
      (found : v.heap.findSlot p .prototype = some (.accessor (some getter) setter))
      (failed : call exec getter (.object p) [] v = .fault f w') :
      Fails exec constructor members w (.object p) f w'

theorem failsWith_define (o : ObjectId) (k : Key) (d : Descriptor) :
    (Run.change o (·.define k d) : Run κ σ Unit).FailsWith fun f =>
      f.surfaceName = "TypeError" := by
  intro w f w' h
  rw [Fault.surfaceName, Object.kind_of_define_eq_error (Run.change_eq_fault h).1]
  rfl

theorem failsWith_copyOnto (prototype : Option ObjectId) (source : ObjectId) :
    (Class.copyOnto prototype source : Run κ σ ObjectId).FailsWith
      fun f => f.surfaceName = "TypeError" := by
  refine .bind (.allocate _) fun target => .bind (.viewHeap _) fun keys => ?_
  refine .bind (.forM keys fun k => .bind (.viewHeap _) fun p => ?_) fun _ => .pure _
  cases p with
  | some p => exact failsWith_define ..
  | none => exact .pure _

/-- A read fails as the getter does that is found. -/
theorem get_eq_fault {exec : Exec κ σ} {o : ObjectId} {k : Key} {receiver : Value} {f : Fault}
    {w' : World κ σ} (h : Member.get exec o k receiver w = .fault f w') :
    ∃ getter setter, w.heap.findSlot o k = some (.accessor (some getter) setter) ∧
      call exec getter receiver [] w = .fault f w' := by
  rw [Member.get, Run.viewHeap_bind] at h
  match found : w.heap.findSlot o k with
  | some (.accessor (some getter) setter) =>
      rw [found] at h
      exact ⟨getter, setter, rfl, h⟩
  | some (.data ..) | some (.accessor none _) | none =>
      rw [found] at h
      cases h

/-- Inheriting fails for a reason of type, or as a getter of the parent does. -/
theorem inheritFrom_eq_fault {exec : Exec κ σ} {constructor : ObjectId} {parent : Option ObjectId}
    {f : Fault} {w' : World κ σ} (h : Class.inheritFrom exec constructor parent w = .fault f w') :
    f.surfaceName = "TypeError" ∨ ∃ p getter setter v, parent = some p ∧
      Run.setPrototype constructor (some p) w = .value () v ∧
      v.heap.findSlot p .prototype = some (.accessor (some getter) setter) ∧
      call exec getter (.object p) [] v = .fault f w' := by
  cases parent with
  | none => cases h
  | some p =>
      rw [Class.inheritFrom, Run.viewHeap_bind] at h
      split at h
      · rcases Run.bind_eq_fault h with h | ⟨_, v, linked, h⟩
        · unfold Run.setPrototype at h
          split at h <;> cases h
          exact .inl rfl
        · rcases Run.bind_eq_fault h with h | ⟨above, _, -, h⟩
          · obtain ⟨getter, setter, found, failed⟩ := get_eq_fault h
            exact .inr ⟨p, getter, setter, v, rfl, linked, found, failed⟩
          · split at h <;> cases h
            exact .inl rfl
      · cases h

theorem createClass_eq_fault {exec : Exec κ σ} {constructor members : ObjectId} {parent : Value}
    {f : Fault} {w' : World κ σ}
    (h : Class.create exec constructor members parent w = .fault f w') :
    Class.Fails exec constructor members w parent f w' := by
  by_cases allowed : parent = .null ∨ ∃ p, parent = .object p
  · rw [Class.create_of_allowed allowed] at h
    rcases Run.bind_eq_fault h with h | ⟨_, linked, link, h⟩
    · exact .type (failsWith_define _ _ _ h)
    rcases Run.bind_eq_fault h with h | ⟨above, inherited, -, h⟩
    · rcases inheritFrom_eq_fault h with type | ⟨p, getter, setter, v, hp, linked', found, failed⟩
      · exact .type type
      · rcases allowed with rfl | ⟨q, rfl⟩
        · cases hp
        · cases hp
          exact .getter ((Run.bind_of_value link).trans linked') found failed
    rcases Run.bind_eq_fault h with h | ⟨prototype, copied, -, h⟩
    · exact .type (failsWith_copyOnto _ _ h)
    rcases Run.bind_eq_fault h with h | ⟨_, _, -, h⟩
    · exact .type (failsWith_define _ _ _ h)
    · cases h
  · rw [Class.create_of_not_allowed allowed] at h
    cases h
    exact .type rfl

/-- Where an object is about to be stored to, it still takes no new properties. -/
theorem Request.Stores.kept {client : Client κ σ} {n : Nat} {w' : World κ σ} {k : Key}
    {r : Request κ α} (h : r.Stores (execute client n) w w' o k)
    (kept : w.heap.Kept True o (w.heap.get o)) : w'.heap.Kept True o (w.heap.get o) := by
  cases r with
  | define | accessDefine | set | accessSet | createClass | markGenerator =>
      have same : w' = w := by simp_all [Request.Stores]
      exact same ▸ kept
  | computedSet owner key v =>
      have L := keptInStep (σ := σ) o (w.heap.get o)
      have he := keptInStep_execute (o := o) (w.heap.get o) client n
      exact (Run.keeps_iff_agree.2 (L.trap he owner w.wellKnown.elementSet)).of_value kept
        h.2.2.2.2
  | _ => cases h

/-- An array takes what is appended, although it takes no new properties. -/
theorem push_of_notExtensible (ho : w.heap.contains o = true)
    (hx : (w.heap.get o).extensible = false) {elements : Elements}
    (he : (w.heap.get o).elements? = some elements) (hl : elements.length < Number.maxLength)
    (exec : Exec κ σ) (n : Nat) (v : Value) :
    ∃ w', perform exec n (.push o v) w = .value (elements.length + 1) w' ∧
      (w'.heap.get o).extensible = false ∧
      .ofIndex elements.length ∈ (w'.heap.get o).ownKeys := by
  have kind := Object.elements?_eq_some_iff.1 he
  have pushed : (w.heap.get o).push v = .ok (elements.length + 1,
      { w.heap.get o with kind := .array (elements.put elements.length v) }) := by
    simp [Object.push, kind, Nat.ne_of_lt hl, Elements.put]
  refine ⟨_, Run.changeGet_of_ok (f := (·.push v)) pushed, ?_⟩
  rw [Heap.get_set_self _ ho]
  refine ⟨hx, ?_⟩
  rw [Object.ownKeys_of_kind rfl]
  exact List.mem_append_left _ (List.mem_map_of_mem (Elements.mem_indices_put_self ..))

/-- Where an object takes no new properties, no run brings a key of it up, except that an array can
be appended to.  A request to store another property of it is refused. -/
theorem Program.run_notExtensible (ho : w.heap.contains o = true)
    (hx : (w.heap.get o).extensible = false) :
    (∀ (client : Client κ σ) (fuel : Nat) (p : Program κ σ), ∀ w' ∈ (p.run client fuel w).world?,
      (w'.heap.get o).extensible = false ∧ ∀ k ∈ (w'.heap.get o).ownKeys,
        k ∈ (w.heap.get o).ownKeys ∨
          (w.heap.get o).elements?.isSome = true ∧ ∃ i, k = .ofIndex i) ∧
    (∀ (client : Client κ σ) (fuel : Nat) (p : Program κ σ),
      (∀ code invocation, (client code invocation).All fun r => ¬ r.Appends o) →
      (p.All fun r => ¬ r.Appends o) → ∀ w' ∈ (p.run client fuel w).world?,
      (w'.heap.get o).ownKeys ⊆ (w.heap.get o).ownKeys) ∧
    (∀ (client : Client κ σ) (fuel : Nat) {α : Type} (r : Request κ α) (k : Key) (w' : World κ σ),
      r.Stores (execute client fuel) w w' o k → (w'.heap.get o).getOwn k = none →
      (perform (execute client fuel) fuel r).Refuses w w') ∧
    (∀ (exec : Exec κ σ) (n : Nat) (names : List String), ∀ s ∈ names,
      (w.heap.get o).getOwn (.text s) = none →
      ∃ w', (perform exec n (.markMethods o names)).Refuses w w') ∧
    (∀ (client : Client κ σ) (fuel : Nat) (members : ObjectId) (parent : Value),
      (w.heap.get o).getOwn .prototype = none →
      (∀ c w', perform (execute client fuel) fuel (.createClass o members parent) w ≠
        .value c w') ∧
      ∀ f w', perform (execute client fuel) fuel (.createClass o members parent) w =
        .fault f w' → Class.Fails (execute client fuel) o members w parent f w') ∧
    (∀ (exec : Exec κ σ) (n : Nat) (v : Value) (elements : Elements),
      (w.heap.get o).elements? = some elements → elements.length < Number.maxLength →
      ∃ w', perform exec n (.push o v) w = .value (elements.length + 1) w' ∧
        (w'.heap.get o).extensible = false ∧
        .ofIndex elements.length ∈ (w'.heap.get o).ownKeys) := by
  have kept (appended : Prop) : w.heap.Kept appended o (w.heap.get o) := ⟨ho, .refl hx⟩
  refine ⟨fun client fuel p w' hw' => ?_, fun client fuel p hc hp w' hw' => ?_,
    fun client fuel α r k w' hr hk => ?_, fun exec n names s hs hk => ?_,
    fun client fuel members parent hk => ?_, fun exec n v elements he hl => ?_⟩
  · have kept := Program.run_keeps_of_within Heap.confines_covers Heap.Kept.step
      (fun code invocation => (client code invocation).all_true.mono fun _ =>
        Request.within_confines fun _ => trivial) fuel
      (p.all_true.mono fun _ => Request.within_confines fun _ => trivial) w (kept True)
    obtain ⟨-, confined⟩ := kept.world? w' hw'
    exact ⟨confined.notExtensible, fun k hk => (confined.keys hk).imp_right (·.2)⟩
  · have kept := Program.run_keeps_of_within Heap.confines_covers Heap.Kept.step
      (fun code invocation => (hc code invocation).mono Request.within_confines) fuel
      (hp.mono Request.within_confines) w (kept False)
    obtain ⟨-, confined⟩ := kept.world? w' hw'
    exact fun k hk => (confined.keys hk).resolve_right (·.1)
  · exact hr.refuses fuel (hr.kept (kept True)).2.notExtensible hk
  · exact refuses_markMethods hs ho hx hk
  · exact ⟨createClass_ne_value ho hx hk client fuel members parent,
      fun f w' h => createClass_eq_fault h⟩
  · exact push_of_notExtensible ho hx he hl exec n v

/-- The empty array that takes no new properties has an element after one is appended. -/
theorem Program.run_notExtensible_pushed :
    let object : Object Unit := { Object.make (.array (.ofList [])) none with extensible := false }
    let w : World Unit Unit := { World.boot (.initial id) () with heap := ⟨#[object]⟩ }
    (w.heap.get ⟨0⟩).ownKeys = [.length] ∧
      ∃ w', perform (fun _ _ => Run.exhausted) 0 (.push ⟨0⟩ .null) w = .value 1 w' ∧
        (w'.heap.get ⟨0⟩).extensible = false ∧ .ofIndex 0 ∈ (w'.heap.get ⟨0⟩).ownKeys := by
  intro object w
  have ho : w.heap.contains ⟨0⟩ = true := by rfl
  have he : (w.heap.get ⟨0⟩).elements? = some (.ofList []) := rfl
  have indices : (Elements.ofList []).indices = [] :=
    List.eq_nil_iff_forall_not_mem.2 fun i => by
      simp [Elements.mem_indices_iff, Elements.get?_ofList]
  have keys : (w.heap.get ⟨0⟩).ownKeys = [.length] := by
    rw [Object.ownKeys_of_kind rfl, indices]
    exact congrArg (Key.length :: ·) Table.keys_empty
  exact ⟨keys, (Program.run_notExtensible ho rfl).2.2.2.2.2 _ _ _ _ he (by decide)⟩

end

end Prototypal
