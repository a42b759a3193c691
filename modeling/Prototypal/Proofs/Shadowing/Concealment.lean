import Prototypal.Proofs.Entry
import Prototypal.Proofs.Shadowing.Marks

/-!
# Private names and enumeration

Whatever the access layer stores under a private name is left out of enumeration, unless it shadows
an inherited value, or is a copy of what did, and was neither deleted nor hidden since.
-/

namespace Prototypal

open Run (Agree)

variable {κ σ α : Type}

/-! ## Objects -/

namespace Object

variable {o o' : Object κ} {n : PrivateName}

theorem place_name (o : Object κ) (n : PrivateName) : o.place (.name n) = .entry :=
  place_eq_entry_iff.2 fun _ _ => ⟨rfl, nofun⟩

theorem getOwn_name (o : Object κ) (n : PrivateName) :
    o.getOwn (.name n) = o.table.find? (.name n) := by
  rw [getOwn, place_name]

/-- An own property under a private name is enumerable. -/
def Exposes (o : Object κ) (n : PrivateName) : Prop :=
  ∃ p, o.getOwn (.name n) = some p ∧ p.enumerable = true

theorem Exposes.congr (h : o'.Exposes n) (ht : o'.table = o.table) : o.Exposes n := by
  obtain ⟨p, hp, he⟩ := h
  exact ⟨p, by rw [getOwn_name, ← ht, ← getOwn_name, hp], he⟩

/-- A definition exposes a name only if it is asked to. -/
theorem Exposes.define {k : Key} {d : Descriptor} (h : o.define k d = .ok o')
    (he : o'.Exposes n) : o.Exposes n ∨ k = .name n ∧ d.enumerable = some true := by
  -- An entry stored under another key leaves the name alone.
  have other {q : Property} (hk : k ≠ .name n)
      (he : ({ o with table := o.table.put k q } : Object κ).Exposes n) : o.Exposes n := by
    obtain ⟨p, hp, he⟩ := he
    rw [getOwn_name, Table.find?_put_of_ne _ _ (Ne.symm hk), ← getOwn_name] at hp
    exact ⟨p, hp, he⟩
  have stored {q : Property}
      (he : ({ o with table := o.table.put (.name n) q } : Object κ).Exposes n) :
      q.enumerable = true := by
    obtain ⟨p, hp, he⟩ := he
    rw [getOwn_name, Table.find?_put_self] at hp
    cases hp
    exact he
  rcases define_cases h with ⟨old, new, -, -, rfl⟩ | ⟨-, -, -, rfl⟩ | ⟨p, hp, -, rfl⟩
  · exact .inl (he.congr rfl)
  · by_cases hk : k = .name n
    · subst hk
      have shown : (Property.ofDescriptor d).enumerable = true := stored he
      cases hd : d.enumerable with
      | none => simp [Property.ofDescriptor, hd] at shown
      | some b => exact .inr ⟨rfl, by simpa [Property.ofDescriptor, hd] using shown⟩
    · exact .inl (other hk he)
  · by_cases hk : k = .name n
    · subst hk
      have shown : (p.merged d).enumerable = true := stored he
      cases hd : d.enumerable with
      | none => exact .inl ⟨p, hp.getOwn, by simpa [Property.merged, hd] using shown⟩
      | some b => exact .inr ⟨rfl, by simpa [Property.merged, hd] using shown⟩
    · exact .inl (other hk he)

theorem Exposes.delete {k : Key} (h : o.delete k = .ok o') (he : o'.Exposes n) : o.Exposes n := by
  rcases delete_cases h with ⟨old, new, -, rfl⟩ | ⟨p, -, -, rfl⟩ | rfl
  · exact he.congr rfl
  · obtain ⟨q, hq, he⟩ := he
    rw [getOwn_name] at hq
    have hk : Key.name n ≠ k := by
      rintro rfl
      cases (Table.find?_erase_self _ _).symm.trans hq
    rw [Table.find?_erase_of_ne _ hk, ← getOwn_name] at hq
    exact ⟨q, hq, he⟩
  · exact he

/-- What is deleted is exposed no longer. -/
theorem not_exposes_of_delete (h : o.delete (.name n) = .ok o') : ¬ o'.Exposes n := by
  rintro ⟨p, hp, -⟩
  rw [getOwn_name] at hp
  simp only [Object.delete, place_name] at h
  split at h
  · split at h
    · cases h
      cases (Table.find?_erase_self _ _).symm.trans hp
    · cases h
  · next absent =>
    cases h
    cases absent.symm.trans hp

/-- What is defined as hidden is exposed no longer. -/
theorem not_exposes_of_define {d : Descriptor} (h : o.define (.name n) d = .ok o')
    (hd : d.enumerable = some false) : ¬ o'.Exposes n := by
  -- Whatever is stored under the name is what the descriptor says.
  have stored {q : Property} (hq : q.enumerable = false) :
      ¬ ({ o with table := o.table.put (.name n) q } : Object κ).Exposes n := by
    rintro ⟨p, hp, he⟩
    rw [getOwn_name, Table.find?_put_self] at hp
    cases hp
    cases hq.symm.trans he
  rcases define_cases h with ⟨-, -, -, place, -⟩ | ⟨-, -, -, rfl⟩ | ⟨p, -, -, rfl⟩
  · exact absurd (place_name o n) place
  · exact stored (by simp [Property.ofDescriptor, hd])
  · exact stored (by simp [Property.merged, hd])

theorem not_exposes_inert (n : PrivateName) : ¬ (inert : Object κ).Exposes n := by
  rintro ⟨p, hp, -⟩
  rw [getOwn_name] at hp
  cases (Table.find?_empty _).symm.trans hp

theorem Exposes.push {v : Value} {m : Nat} (h : o.push v = .ok (m, o')) (he : o'.Exposes n) :
    o.Exposes n := by
  obtain ⟨old, new, -, rfl⟩ := push_cases h
  exact he.congr rfl

end Object

/-! ## Heaps -/

namespace Heap

/-- An own property of an object under a private name is enumerable. -/
def Exposes (h : Heap κ) (o : ObjectId) (n : PrivateName) : Prop := (h.get o).Exposes n

/-- A step exposes nothing new. -/
def Conceals (h h' : Heap κ) : Prop := ∀ o n, h'.Exposes o n → h.Exposes o n

theorem exposes_set {h : Heap κ} {o q : ObjectId} {object : Object κ} {n : PrivateName}
    (he : (h.set q object).Exposes o n) : h.Exposes o n ∨ o = q ∧ object.Exposes n := by
  cases hc : h.contains q with
  | false => exact .inl (set_of_not_contains object hc ▸ he)
  | true =>
      by_cases hq : o = q
      · subst hq
        exact .inr ⟨rfl, get_set_self object hc ▸ he⟩
      · rw [Exposes, get_set_of_ne h object hq] at he
        exact .inl he

/-- A change of an object that leaves a name unexposed on it. -/
theorem not_exposes_of_change {w w' : World κ σ} {o : ObjectId} {n : PrivateName}
    {f : Object κ → Except Fault (Object κ)} (h : Run.change o f w = .value () w')
    (hf : ∀ {object}, f (w.heap.get o) = .ok object → ¬ object.Exposes n) :
    ¬ w'.heap.Exposes o n := by
  obtain ⟨object, changed, rfl⟩ := Run.change_eq_value h
  intro exposed
  rcases exposes_set exposed with old | ⟨-, new⟩
  · cases hc : w.heap.contains o with
    | false =>
        rw [Exposes, get_of_not_contains hc] at old
        exact Object.not_exposes_inert n old
    | true =>
        rw [Exposes, get_set_self object hc] at exposed
        exact hf changed exposed
  · exact hf changed new

theorem Conceals.set {h : Heap κ} {q : ObjectId} {object : Object κ}
    (hq : ∀ n, object.Exposes n → h.Exposes q n) : Conceals h (h.set q object) := by
  intro o n exposed
  rcases exposes_set exposed with old | ⟨rfl, new⟩
  · exact old
  · exact hq n new

theorem permits_conceals {o : ObjectId} {k : Key} {d : Descriptor}
    (hd : k.isName = true → d.enumerable ≠ some true) : Permits (Conceals (κ := κ)) o k d := by
  intro h object he
  refine .set fun n exposed => (exposed.define he).resolve_right ?_
  rintro ⟨rfl, shown⟩
  exact hd rfl shown

theorem conceals_covers : Covers (Conceals (κ := κ)) where
  define hd := permits_conceals fun _ => hd.notShown
  delete he := .set fun _ exposed => exposed.delete he
  preventExtensions := .set fun _ exposed => exposed.congr rfl
  setPrototype _ := .set fun _ exposed => exposed.congr rfl
  allocate {h object} ho _ o n exposed := by
    by_cases hn : o = h.next
    · subst hn
      rw [Exposes, get_allocate_next] at exposed
      obtain ⟨p, hp, he⟩ := exposed
      rw [Object.getOwn_name] at hp
      cases (ho.hidden hp).symm.trans he
    · rwa [Exposes, get_allocate_of_ne h object hn] at exposed

end Heap

/-- An assignment that defines an own property where one is inherited shadows. -/
theorem Heap.shadows_of_define {h : Heap κ} {o : ObjectId} {n : PrivateName} {d : Descriptor}
    {object : Object κ} (found : h.has o (.name n) = true)
    (writable : ∀ s, h.findSlot o (.name n) = some s → ∃ v, s = .data v true)
    (absent : (h.get o).getOwn (.name n) = none) (hd : (h.get o).define (.name n) d = .ok object) :
    h.shadows o n = true := by
  obtain ⟨p, hp⟩ := Option.isSome_iff_exists.1 found
  have slot : h.findSlot o (.name n) = some p.slot := by rw [findSlot, hp]; rfl
  obtain ⟨v, hv⟩ := writable _ slot
  have extensible : (h.get o).extensible = true := by
    rcases Object.define_cases hd with ⟨-, -, -, place, -⟩ | ⟨-, -, extensible, -⟩ | ⟨q, hq, -, -⟩
    · exact absurd (Object.place_name _ n) place
    · exact extensible
    · exact nomatch hq.getOwn.symm.trans absent
  simp [shadows, slot, hv, absent, extensible]

/-- An assignment that shadows makes an ordinary property. -/
theorem accessSet_of_shadows {w : World κ σ} {o : ObjectId} {n : PrivateName}
    (ho : w.heap.contains o = true) (h : w.heap.shadows o n = true) (exec : Exec κ σ) (v : Value) :
    ∃ w', Access.set exec (.object o) (.name n) v w = .value () w' ∧
      (w'.heap.get o).getOwn (.name n) = some (.data v) := by
  simp only [Heap.shadows, Bool.and_eq_true, Option.isNone_iff_eq_none] at h
  obtain ⟨⟨extensible, absent⟩, inherited⟩ := h
  obtain ⟨u, slot⟩ : ∃ u, w.heap.findSlot o (.name n) = some (.data u true) := by
    split at inherited
    · next u _ slot => exact ⟨u, by rw [slot, inherited]⟩
    · cases inherited
  have found : w.heap.has o (.name n) = true := by
    rw [Heap.findSlot, Option.map_eq_some_iff] at slot
    obtain ⟨p, hp, -⟩ := slot
    rw [Heap.has, hp]
    rfl
  have defined : (w.heap.get o).define (.name n) (.data v) =
      .ok { w.heap.get o with
        table := (w.heap.get o).table.put (.name n) (.ofDescriptor (.data v)) } := by
    rw [Object.getOwn_name] at absent
    simp [Object.define, Object.place_name, Object.defineEntry, absent, extensible, Except.map]
  have assigned : Access.set exec (.object o) (.name n) v w =
      Run.change o (·.define (.name n) (.data v)) w := by
    unfold Access.set
    simp [Key.isReserved, Run.viewHeap_bind, found, Member.set, slot, Member.store, absent]
  refine ⟨_, assigned.trans (Run.change_of_ok (f := (·.define (.name n) (.data v))) defined), ?_⟩
  rw [Heap.get_set_self _ ho, Object.getOwn_name, Table.find?_put_self]
  rfl

/-- Nor does a computed assignment make another one, if no function takes it over. -/
theorem computedSet_of_shadows {w : World κ σ} {o : ObjectId} {n : PrivateName} {key : Value}
    (ho : w.heap.contains o = true) (h : w.heap.shadows o n = true) (hk : w.heap.key key = .name n)
    (free : w.heap.has o (.name w.wellKnown.elementSet) = false) (exec : Exec κ σ) (v : Value) :
    ∃ w', ComputedAccess.set exec (.object o) key v w = .value v w' ∧
      (w'.heap.get o).getOwn (.name n) = some (.data v) := by
  obtain ⟨w', assigned, slot⟩ := accessSet_of_shadows ho h exec v
  refine ⟨w', ?_, slot⟩
  have untaken : ComputedAccess.trap exec (.object o) w.wellKnown.elementSet w =
      .value none w := by
    rw [ComputedAccess.trap, Run.viewHeap_bind, free]
    rfl
  rw [ComputedAccess.set, Run.view_bind, Run.bind_of_value untaken]
  dsimp only
  rw [Run.viewHeap_bind, hk, Run.bind_of_value assigned]
  rfl

/-! ## Marked runs -/

/-- The request changes what is stored under private names through access only, or defines no
enumerable property. -/
def Request.Guarded : Request κ α → Prop
  | .define _ k d => k.isName = true → d.enumerable ≠ some true
  | .set _ k _ _ => k.isName = false
  | _ => True

/-- Every exposed name is accounted for by the marks. -/
def Heap.Accounted (h : Heap κ) (s : σ × Marks) : Prop := ∀ o n, h.Exposes o n → s.2.Account o n

/-- Besides, the marks account on one object for what another one exposes. -/
def Heap.AccountedCopy (h : Heap κ) (s : σ × Marks) (source target : ObjectId) : Prop :=
  h.Accounted s ∧ ∀ n, h.Exposes source n → s.2.Account target n

/-- Marks of an assignment take no account back. -/
theorem Marks.Account.assigned {o : ObjectId} {n : PrivateName} {marks : Marks}
    (h : marks.Account o n) (owner : Value) (k : Key) (heap : Heap κ) :
    Account (Marked.ofAssignment owner k heap ++ marks) o n := by
  unfold Marked.ofAssignment
  split
  · split
    · exact .inr h
    · exact h
  · exact h

/-- What is no longer exposed needs no account. -/
theorem Heap.Accounted.cleared {h : Heap κ} {s : σ × Marks} (accounted : h.Accounted s)
    {owner : Value} {k : Key}
    (gone : ∀ {o n}, owner = .object o → k = .name n → ¬ h.Exposes o n) :
    h.Accounted (s.1, Marked.ofClearing owner k ++ s.2) := by
  intro o n exposed
  have account := accounted o n exposed
  unfold Marked.ofClearing
  split
  · refine ⟨fun ⟨ho, hn⟩ => ?_, account⟩
    subst ho hn
    exact gone rfl rfl exposed
  · exact account

namespace Marked

theorem accounting :
    FullLockstep (Heap.Conceals (κ := κ))
      (Run.Both fun w : World κ (σ × Marks) => w.heap.Accounted w.client) :=
  .ofHeapAndClient Heap.conceals_covers fun accounted conceals o n exposed =>
    accounted o n (conceals o n exposed)

/-- The run accounts for what it exposes. -/
abbrev Accounts (x : Run κ (σ × Marks) α) : Prop :=
  Agree (Run.Both fun w => w.heap.Accounted w.client) x x

/-- What deletes or hides a property leaves it unexposed once it is done. -/
theorem accounts_clearing {owner : Value} {k : Key} {x : Run κ (σ × Marks) α}
    (hx : Accounts x)
    (gone : ∀ {o n w a w'}, owner = .object o → k = .name n → x w = .value a w' →
      ¬ w'.heap.Exposes o n) :
    Accounts (clearing owner k x) := by
  refine Run.keeps_iff_agree.1 fun w accounted => ?_
  refine ((Run.keeps_iff_agree.2 hx w accounted).and .value_eq).bind (fun {a w'} ⟨kept, ran⟩ => ?_)
    fun kept => kept.1
  exact .modify (kept.cleared fun ho hk => gone ho hk (ran a rfl))

theorem accounts_delete (o : ObjectId) (k : Key) :
    Accounts (delete o k : Run κ (σ × Marks) _) := by
  refine accounts_clearing accounting.deleteOwn fun ho hk ran => ?_
  cases ho
  subst hk
  exact Heap.not_exposes_of_change ran Object.not_exposes_of_delete

theorem accounts_define {o : ObjectId} {k : Key} {d : Descriptor}
    (hd : k.isName = true → d.enumerable ≠ some true) :
    Accounts (define o k d : Run κ (σ × Marks) _) := by
  have plain : Accounts (Run.change o (·.define k d) : Run κ (σ × Marks) _) :=
    accounting.change (f := (·.define k d)) fun {_ _} => Heap.permits_conceals hd
  unfold define
  split
  · next hidden =>
    refine accounts_clearing plain fun ho hk ran => ?_
    cases ho
    subst hk
    exact Heap.not_exposes_of_change ran fun ok => Object.not_exposes_of_define ok hidden
  · exact plain

theorem accounts_accessDelete (owner : Value) (k : Key) :
    Accounts (accessDelete owner k : Run κ (σ × Marks) _) := by
  refine accounts_clearing (accounting.accessDelete owner k) fun ho hk ran => ?_
  subst ho hk
  obtain ⟨_, _, changed, same⟩ := Run.bind_eq_value ran
  cases same
  exact Heap.not_exposes_of_change changed Object.not_exposes_of_delete

theorem accounts_accessDefine (owner : Value) (k : Key) (d : Descriptor) :
    Accounts (accessDefine owner k d : Run κ (σ × Marks) _) := by
  refine accounts_clearing (accounting.accessDefine fun _ _ {_ _} =>
    Heap.permits_conceals fun hk => ?_) fun {o n w _ w'} ho hk ran => ?_
  · simp [Descriptor.under, hk]
  · subst ho hk
    have changed : Run.change o (·.define (.name n) { d with enumerable := some false }) w =
        .value () w' := ran
    exact Heap.not_exposes_of_change changed fun ok => Object.not_exposes_of_define ok rfl

variable {exec : Exec κ (σ × Marks)}
  (he : Lockstep.ExecAgree (Run.Both fun w => w.heap.Accounted w.client) exec exec)

include he in
theorem accounts_accessSet (owner : Value) (k : Key) (v : Value) :
    Accounts (accessSet exec owner k v) := by
  rintro w _ ⟨rfl, accounted⟩
  let marks := ofAssignment owner k w.heap
  let w₁ : World κ (σ × Marks) := { w with client := (w.client.1, marks ++ w.marks) }
  have accounted₁ : w₁.heap.Accounted w₁.client := fun o n exposed =>
    (accounted o n exposed).assigned owner k w.heap
  change (Access.set exec owner k v w₁).Agree _ (Access.set exec owner k v w₁)
  cases owner with
  | object o =>
      unfold Access.set
      split
      · exact .fault ⟨rfl, accounted₁⟩
      · dsimp only
        rw [Run.viewHeap_bind]
        split
        · exact accounting.defineDiscreet (.hidden v) ⟨rfl, accounted₁⟩
        · next found =>
          refine accounting.setAt he ⟨rfl, accounted₁⟩ o k v _ fun ht absent slot hd => ?_
          cases ht
          refine ⟨rfl, fun o' n exposed => ?_⟩
          rcases Heap.exposes_set exposed with old | ⟨rfl, new⟩
          · exact accounted₁ _ _ old
          · rcases new.define hd with old | ⟨hk, -⟩
            · exact accounted₁ _ _ old
            · subst hk
              have shadows : w.heap.shadows o' n = true :=
                Heap.shadows_of_define (by simpa [Key.isName, Key.name?] using found) slot absent hd
              have marked : marks = [.shadowed o' n] := by simp [marks, ofAssignment, shadows]
              change Marks.Account (marks ++ w.marks) o' n
              rw [marked]
              exact Or.inl ⟨rfl, rfl⟩
  | _ =>
      unfold Access.set
      split
      · exact .fault ⟨rfl, accounted₁⟩
      · exact .fault ⟨rfl, accounted₁⟩

include he in
theorem accounts_computedSet (owner key v : Value) :
    Accounts (computedSet exec owner key v) := by
  have L := accounting (κ := κ) (σ := σ)
  refine L.viewWellKnown.bind fun names => (L.trap he ..).bind fun handler => ?_
  cases handler with
  | some f => exact (L.call he ..).discard.bind fun _ => .pure v
  | none => exact (L.viewHeap _).bind fun k => (accounts_accessSet he ..).bind fun _ => .pure v

include he in
theorem accounts_computedDelete (owner key : Value) :
    Accounts (computedDelete exec owner key) := by
  have L := accounting (κ := κ) (σ := σ)
  refine L.viewWellKnown.bind fun names => (L.trap he ..).bind fun handler => ?_
  cases handler with
  | some f => exact (L.call he ..).bind fun _ => .pure _
  | none => exact (L.viewHeap _).bind fun k => accounts_accessDelete owner k

/-- A copy exposes what its original exposes. -/
theorem accounts_copy (source target : ObjectId) (k : Key) :
    Run.Keeps (fun w : World κ (σ × Marks) => w.heap.AccountedCopy w.client source target) (do
      match ← Run.viewHeap fun h => (h.get source).getOwn k with
      | some p => Run.change target (·.define k p.toDescriptor)
      | none => pure ()) := by
  intro w kept
  obtain ⟨accounted, copies⟩ := kept
  refine .view ?_
  dsimp only
  match hp : (w.heap.get source).getOwn k with
  | none => exact ⟨accounted, copies⟩
  | some p =>
      match hd : (w.heap.get target).define k p.toDescriptor with
      | .error f =>
          simp only [Run.Ends, Run.change_of_error (f := (·.define k p.toDescriptor)) hd]
          exact ⟨accounted, copies⟩
      | .ok object =>
          have exposed {n : PrivateName} (h : object.Exposes n) : w.marks.Account target n := by
            rcases h.define hd with old | ⟨rfl, shown⟩
            · exact accounted _ _ old
            · refine copies n ⟨p, hp, ?_⟩
              unfold Property.toDescriptor at shown
              split at shown <;> exact Option.some.inj shown
          simp only [Run.Ends, Run.change_of_ok (f := (·.define k p.toDescriptor)) hd]
          refine ⟨fun o n h => ?_, fun n h => ?_⟩
          · rcases Heap.exposes_set h with old | ⟨rfl, new⟩
            · exact accounted _ _ old
            · exact exposed new
          · rcases Heap.exposes_set h with old | ⟨rfl, new⟩
            · exact copies n old
            · exact exposed new

/-- Copies are marked before they are made. -/
theorem accounts_copyOnto (prototype : Option ObjectId) (source : ObjectId) :
    Run.Keeps (fun w : World κ (σ × Marks) => w.heap.Accounted w.client)
      (copyOnto prototype source) := by
  intro w accounted
  let target := w.heap.next
  have made : w.heap.Conceals (w.heap.allocate (.make .ordinary prototype)).2 :=
    Heap.conceals_covers.make (.make .ordinary _)
  refine .modify (.modifyGet (.view ?_))
  refine Run.Ends.bind (Run.keeps_iff_agree.2 (.forM _ fun k => Run.keeps_iff_agree.1
    (accounts_copy source target k)) _ ⟨fun o n h => ?_, fun n h => ?_⟩) ?_ ?_
  · exact .inr (accounted o n (made o n h))
  · exact .inl ⟨rfl, accounted source n (made source n h)⟩
  · exact fun kept => kept.1
  · exact fun kept => kept.1

include he in
theorem accounts_createClass (constructor members : ObjectId) (parent : Value) :
    Accounts (createClass exec constructor members parent) := by
  have L := accounting (κ := κ) (σ := σ)
  have create (parent : Option ObjectId) (_ : Unit) :=
    (L.inheritFrom he constructor parent).bind fun above =>
    (Run.keeps_iff_agree.1 (accounts_copyOnto above members)).bind fun prototype =>
    (L.defineDiscreet (o := constructor) (k := .prototype)
      (.onlyValue (.object prototype))).bind fun _ =>
    Agree.pure constructor
  cases parent with
  | null => exact (L.defineDiscreet (.onlyValue _)).bind (create none)
  | object p => exact (L.defineDiscreet (.onlyValue _)).bind (create (some p))
  | _ => exact .fail _

include he in
theorem accounts_perform (n : Nat) {r : Request κ α} (hr : r.Guarded) :
    Accounts (perform exec n r) := by
  have plain (hw : r.Within Heap.Conceals) :
      Accounts (Prototypal.perform exec n r) := accounting.perform he n hw
  cases r with
  | define => exact accounts_define hr
  | delete => exact accounts_delete ..
  | accessSet => exact accounts_accessSet he ..
  | accessDelete => exact accounts_accessDelete ..
  | accessDefine => exact accounts_accessDefine ..
  | computedSet => exact accounts_computedSet he ..
  | computedDelete => exact accounts_computedDelete he ..
  | createClass => exact accounts_createClass he ..
  | push o v => exact plain fun {_ _ _} hv => .set fun _ exposed => exposed.push hv
  | set o k v receiver =>
      exact plain fun _ _ {_ _} => Heap.permits_conceals fun hk => nomatch hk.symm.trans hr
  | _ => exact plain trivial

include he in
theorem accounts_program (n : Nat) {p : Program κ σ} (hp : p.All (·.Guarded)) :
    Accounts (p.unmarking.runWith (perform exec n)) :=
  accounting.runWith (fun h => by rw [h.1]) (fun _ h => ⟨by rw [h.1], h.2⟩)
    (accounts_perform he n) p hp

theorem accounts_execute {client : Client κ σ}
    (hc : ∀ code invocation, (client code invocation).All (·.Guarded)) (n : Nat) :
    Lockstep.ExecAgree (Run.Both fun w => w.heap.Accounted w.client) (execute client n)
      (execute client n) := by
  induction n with
  | zero => exact fun _ _ => .exhausted
  | succ n ih => exact accounting.enter (fun _ _ => accounts_program ih n (hc ..)) ih

end Marked

/-- Whatever is stored under private names is left out of enumeration, but for what shadows an
inherited value, and its copies, as long as it is not deleted or hidden.  Along a marked run, whose
marks can be forgotten, from a world without private slots, every enumerable property under a
private name is accounted for; and what shadows is enumerable. -/
theorem Program.mark_conceals {client : Client κ σ}
    (hc : ∀ code invocation, (client code invocation).All (·.Guarded)) {p : Program κ σ}
    (hp : p.All (·.Guarded)) {w : World κ σ} (hw : ∀ o n, (w.heap.get o).getOwn (.name n) = none)
    (fuel : Nat) :
    (p.mark client fuel w.unmark).Agree Marked.Forgets (p.run client fuel w) ∧
    (∀ w' ∈ (p.mark client fuel w.unmark).world?, ∀ o n q,
      (w'.heap.get o).getOwn (.name n) = some q → ¬ w'.marks.Account o n →
      q.enumerable = false) ∧
    ∀ (exec : Exec κ σ) (m : Nat) (v : Value) (w : World κ σ) (o : ObjectId) (n : PrivateName),
      w.heap.contains o = true → w.heap.shadows o n = true →
      (∃ w', perform exec m (.accessSet (.object o) (.name n) v) w = .value () w' ∧
        (w'.heap.get o).getOwn (.name n) = some (.data v)) ∧
      ∀ key, w.heap.key key = .name n → w.heap.has o (.name w.wellKnown.elementSet) = false →
        ∃ w', perform exec m (.computedSet (.object o) key v) w = .value v w' ∧
          (w'.heap.get o).getOwn (.name n) = some (.data v) := by
  refine ⟨p.forgets_mark client fuel rfl, fun w' hw' o n q hq unaccounted => ?_,
    fun exec m v w o n ho hs => ⟨accessSet_of_shadows ho hs exec v, fun key hk free =>
      computedSet_of_shadows ho hs hk free exec v⟩⟩
  have start : w.unmark.heap.Accounted w.unmark.client := by
    rintro o n ⟨q, hq, -⟩
    cases (hw o n).symm.trans hq
  have accounted := (Run.keeps_iff_agree.2
    (Marked.accounts_program (Marked.accounts_execute hc fuel) fuel hp) _ start).world? w' hw'
  exact Bool.eq_false_iff.2 fun shown => unaccounted (accounted o n ⟨q, hq, shown⟩)

/-- An object is assigned a name that it inherits, which shadows.  The slot is deleted, and another
one is defined: the marks no longer account for the name, and enumeration leaves it out. -/
theorem Program.mark_conceals_redefined :
    let w : World Unit Unit :=
      { World.boot (.initial id) () with
        heap := ⟨#[Object.make .ordinary none, Object.make .ordinary (some ⟨0⟩)]⟩ }
    let n : PrivateName := ⟨5, "n", "__$0$1$__"⟩
    let p : Program Unit Unit :=
      .ask (.accessSet (.object ⟨0⟩) (.name n) .null) fun _ =>
      .ask (.accessSet (.object ⟨1⟩) (.name n) .null) fun _ =>
      .ask (.accessDelete (.object ⟨1⟩) (.name n)) fun _ =>
      .ask (.accessDefine (.object ⟨1⟩) (.name n) (.data .null)) fun _ => .done (.ok .null)
    (∀ o n, (w.heap.get o).getOwn (.name n) = none) ∧ p.All (·.Guarded) ∧
      ∃ w' ∈ (p.mark (fun _ _ => p) 1 w.unmark).world?, .shadowed ⟨1⟩ n ∈ w'.marks ∧ ∃ q,
        (w'.heap.get ⟨1⟩).getOwn (.name n) = some q ∧ q.enumerable = false := by
  intro w n p
  have guarded : p.All (·.Guarded) :=
    ⟨trivial, fun _ => ⟨trivial, fun _ => ⟨trivial, fun _ => ⟨trivial, fun _ => trivial⟩⟩⟩⟩
  have bare (o : ObjectId) (n : PrivateName) : (w.heap.get o).getOwn (.name n) = none := by
    have empty : (w.heap.get o).table = .empty := by
      match o with
      | ⟨0⟩ => rfl
      | ⟨1⟩ => rfl
      | ⟨i + 2⟩ => rfl
    rw [Object.getOwn_name, empty, Table.find?_empty]
  have facts : ((p.mark (fun _ _ => p) 1 w.unmark).world?.map fun w' =>
      (((w'.heap.get ⟨1⟩).getOwn (.name n)).isSome, w'.marks)) =
      some (true, [.cleared ⟨1⟩ n, .cleared ⟨1⟩ n, .shadowed ⟨1⟩ n]) := by decide +kernel
  obtain ⟨w', hw', same⟩ := Option.map_eq_some_iff.1 facts
  obtain ⟨found, marks⟩ := Prod.mk.inj same
  obtain ⟨q, hq⟩ := Option.isSome_iff_exists.1 found
  refine ⟨bare, guarded, w', hw', by simp [marks], q, hq, ?_⟩
  refine (Program.mark_conceals (fun _ _ => guarded) guarded bare 1).2.1 w' hw' _ _ q hq ?_
  rw [marks]
  exact fun account => account.1 ⟨rfl, rfl⟩

/-- An object is assigned a name that it inherits, and then has an enumerable slot under it. -/
theorem Program.run_shadowed_enumerable :
    let w : World Unit Unit :=
      { World.boot (.initial id) () with
        heap := ⟨#[Object.make .ordinary none, Object.make .ordinary (some ⟨0⟩)]⟩ }
    let n : PrivateName := ⟨5, "n", "__$0$1$__"⟩
    let p : Program Unit Unit :=
      .ask (.accessSet (.object ⟨0⟩) (.name n) .null) fun _ =>
      .ask (.accessSet (.object ⟨1⟩) (.name n) .null) fun _ => .done (.ok .null)
    (∀ o n, (w.heap.get o).getOwn (.name n) = none) ∧
      (((p.run (fun _ _ => p) 1 w).world?.bind fun w' =>
        (w'.heap.get ⟨1⟩).getOwn (.name n)).map (·.enumerable)) = some true := by
  intro w n p
  have bare (o : ObjectId) (n : PrivateName) : (w.heap.get o).getOwn (.name n) = none := by
    have empty : (w.heap.get o).table = .empty := by
      match o with
      | ⟨0⟩ => rfl
      | ⟨1⟩ => rfl
      | ⟨i + 2⟩ => rfl
    rw [Object.getOwn_name, empty, Table.find?_empty]
  exact ⟨bare, by decide +kernel⟩

end Prototypal
