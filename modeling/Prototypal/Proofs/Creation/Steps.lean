import Prototypal.Proofs.Class
import Prototypal.Proofs.Layout

/-!
# The steps of a creation

What each step of `Class.create` does to the objects it concerns, whether or not they are arrays.
-/

namespace Prototypal

variable {κ σ : Type}

/-! ## One property more -/

namespace Object

theorem place_constructor (o : Object κ) : o.place .constructor = .entry :=
  place_eq_entry_iff.2 fun _ _ => by decide

theorem place_prototype (o : Object κ) : o.place .prototype = .entry :=
  place_eq_entry_iff.2 fun _ _ => by decide

/-- An object is another one but for its property under a key and for its prototype. -/
structure SameBut (k : Key) (o o' : Object κ) : Prop where
  kind : o'.kind = o.kind
  extensible : o'.extensible = o.extensible
  others {j : Key} : j ≠ k → o'.getOwn j = o.getOwn j
  /-- A new key comes last. -/
  keys : o'.ownKeys = if (o.getOwn k).isSome then o.ownKeys else o.ownKeys ++ [k]

theorem SameBut.withPrototype {k : Key} {o o' : Object κ} (h : o.SameBut k o')
    (prototype : Option ObjectId) : o.SameBut k { o' with prototype } :=
  ⟨h.kind, h.extensible, h.others, h.keys⟩

theorem sameBut_put {o : Object κ} {k : Key} (hk : o.place k = .entry) (p : Property) :
    o.SameBut k (o.put k p) where
  kind := rfl
  extensible := rfl
  others hj := o.getOwn_put_of_ne p hj
  keys := by
    have own : o.getOwn k = o.table.find? k := by rw [getOwn, hk]
    rw [own]
    cases present : o.table.find? k with
    | some q =>
        simp only [ownKeys, put, Table.keys_put_of_present p (Option.isSome_of_eq_some present),
          Option.isSome_some, if_true]
    | none =>
        simp only [ownKeys, put, Table.keys_put_of_absent p present]
        cases o.kind <;> simp

end Object

/-! ## Chains after a change -/

namespace Heap

variable {h h' : Heap κ}

/-- What a change of an object keeps of it is kept of every object. -/
theorem get_set_congr {β : Type} (f : Object κ → β) {o : ObjectId} (object : Object κ)
    (hf : f object = f (h.get o)) (q : ObjectId) : f ((h.set o object).get q) = f (h.get q) := by
  by_cases hq : q = o
  · subst hq
    cases held : h.contains q with
    | true => rw [get_set_self object held, hf]
    | false => rw [set_of_not_contains object held]
  · rw [get_set_of_ne h object hq]

theorem chainUpTo_congr (same : ∀ q, (h'.get q).prototype = (h.get q).prototype) (n : Nat)
    (o : ObjectId) : h'.chainUpTo n o = h.chainUpTo n o := by
  induction n generalizing o with
  | zero => rfl
  | succ n ih =>
      rw [chainUpTo, chainUpTo, same]
      cases (h.get o).prototype with
      | none => rfl
      | some p => exact congrArg _ (ih p)

/-- Lookup depends on the objects of the chain only. -/
theorem findUpTo_congr {n : Nat} {o : ObjectId} {k : Key}
    (same : ∀ q ∈ h.chainUpTo n o, (h'.get q).getOwn k = (h.get q).getOwn k ∧
      (h'.get q).prototype = (h.get q).prototype) : h'.findUpTo n o k = h.findUpTo n o k := by
  induction n generalizing o with
  | zero => rfl
  | succ n ih =>
      obtain ⟨own, prototype⟩ := same o List.mem_cons_self
      rw [findUpTo, findUpTo, own, prototype]
      cases hp : (h.get o).prototype with
      | none => rfl
      | some p =>
          have above : h'.findUpTo n p k = h.findUpTo n p k :=
            ih fun q hq => same q (by rw [chainUpTo, hp]; exact List.mem_cons_of_mem _ hq)
          simp only [above]

theorem find_set_put (h : Heap κ) (o : ObjectId) {j k : Key} (p : Property) (hk : k ≠ j)
    (q : ObjectId) : (h.set o ((h.get o).put j p)).find q k = h.find q k := by
  rw [find, find, size_set]
  exact findUpTo_congr fun r _ =>
    ⟨get_set_congr (·.getOwn k) _ (Object.getOwn_put_of_ne _ p hk) r,
      get_set_congr (·.prototype) ((h.get o).put j p) rfl r⟩

theorem closesCircle_set_put (h : Heap κ) (o : ObjectId) (k : Key) (p : Property) (c : ObjectId)
    (above : Option ObjectId) :
    (h.set o ((h.get o).put k p)).closesCircle c above = h.closesCircle c above := by
  unfold closesCircle chain
  simp only [size_set, chainUpTo_congr
    (fun q => get_set_congr (·.prototype) ((h.get o).put k p) rfl q)]

/-- A prototype that closes no circle is looked up as before. -/
theorem find_setPrototype {o p : ObjectId} (hc : h.closesCircle o (some p) = false)
    (prototype : Option ObjectId) (k : Key) :
    (h.setPrototype o prototype).find p k = h.find p k := by
  have apart : ∀ q ∈ h.chain p, q ≠ o := by
    rintro q hq rfl
    simp [closesCircle, hq] at hc
  unfold setPrototype
  rw [find, find, size_set]
  refine findUpTo_congr fun q hq => ?_
  rw [get_set_of_ne _ _ (apart q hq)]
  exact ⟨rfl, rfl⟩

theorem contains_of_has {p : ObjectId} {k : Key} (hp : h.has p k = true) : h.contains p = true :=
  contains_of_ne_inert fun inert => by
    have absent : (Object.inert : Object κ).getOwn k = none :=
      (Object.getOwn_of_not_array rfl k).trans (Table.find?_empty k)
    have prototype : (Object.inert : Object κ).prototype = none := rfl
    simp [has, find, findUpTo, inert, absent, prototype] at hp

end Heap

/-- What a definition by a value alone does in the world, under the key of an entry. -/
theorem Run.define_onlyValue_of_entry {w w' : World κ σ} {o : ObjectId} {k : Key} {v : Value}
    (hk : (w.heap.get o).place k = .entry)
    (h : Run.change o (·.define k (.onlyValue v)) w = .value () w') :
    w.heap.contains o = true ∧
      w' = { w with
        heap := w.heap.set o ((w.heap.get o).put k (.withValue ((w.heap.get o).getOwn k) v)) } := by
  obtain ⟨object, defined, rfl⟩ := Run.change_eq_value h
  refine ⟨Heap.contains_of_define defined, ?_⟩
  rw [Object.define_onlyValue_of_entry hk defined]

namespace Class

/-! ## The parent -/

section
variable (exec : Exec κ σ)

/-- What the `prototype` of a parent lets a class inherit from. -/
def passedOn (p : ObjectId) : Run κ σ (Option ObjectId) := do
  match ← Member.get exec p .prototype (.object p) with
  | .null => pure none
  | .object q => pure (some q)
  | _ => Run.fail .invalidParentPrototype

variable {exec} {constructor p : ObjectId} {w : World κ σ}

theorem inheritFrom_of_not_has (h : w.heap.has p .prototype = false) :
    inheritFrom exec constructor (some p) w = .value (some p) w := by
  simp only [inheritFrom]
  rw [Run.viewHeap_bind, h]
  rfl

theorem inheritFrom_of_closesCircle (h : w.heap.has p .prototype = true)
    (hc : w.heap.closesCircle constructor (some p) = true) :
    inheritFrom exec constructor (some p) w = .fault .cyclicPrototype w := by
  simp only [inheritFrom]
  rw [Run.viewHeap_bind, if_pos h]
  exact Run.bind_of_fault (if_pos hc)

theorem inheritFrom_of_has (h : w.heap.has p .prototype = true)
    (hc : w.heap.closesCircle constructor (some p) = false) :
    inheritFrom exec constructor (some p) w =
      passedOn exec p { w with heap := w.heap.setPrototype constructor (some p) } := by
  have linked : Run.setPrototype constructor (some p) w =
      .value () { w with heap := w.heap.setPrototype constructor (some p) } :=
    if_neg (Bool.eq_false_iff.1 hc)
  simp only [inheritFrom]
  rw [Run.viewHeap_bind, if_pos h, Run.bind_of_value linked]
  rfl

/-- A data property is passed on without running anything. -/
theorem passedOn_of_value {q : Property} {v : Value} (hq : w.heap.find p .prototype = some q)
    (hv : q.value? = some v) :
    passedOn exec p w = match v with
      | .null => .value none w
      | .object above => .value (some above) w
      | _ => .fault .invalidParentPrototype w := by
  have read : Member.get exec p .prototype (.object p) w = .value v w := by
    rw [Member.get_of_plain, hq, Option.bind_some, hv, Option.getD_some]
    intro q' hq'
    cases hq.symm.trans hq'
    exact q.isAccessor_of_value? hv
  rw [passedOn, Run.bind_of_value read]
  cases v <;> rfl

end

/-! ## The copy -/

theorem keys_copies {source : Object κ} {keys : List Key} {t : Table} (hn : keys.Nodup)
    (hs : ∀ k ∈ keys, (source.getOwn k).isSome) (ht : ∀ k ∈ keys, t.find? k = none) :
    (copies source keys t).keys = t.keys ++ keys := by
  induction keys generalizing t with
  | nil => exact (List.append_nil _).symm
  | cons k keys ih =>
      obtain ⟨fresh, hn⟩ := List.nodup_cons.1 hn
      obtain ⟨p, hp⟩ := Option.isSome_iff_exists.1 (hs k List.mem_cons_self)
      have absent := ht k List.mem_cons_self
      have others : ∀ j ∈ keys, (t.put k p).find? j = none := fun j hj => by
        have hjk : j ≠ k := fun e => fresh (e ▸ hj)
        exact (Table.find?_put_of_ne _ _ hjk).trans (ht j (List.mem_cons_of_mem _ hj))
      have rest := ih hn (fun j hj => hs j (List.mem_cons_of_mem _ hj)) others
      rw [Table.keys_put_of_absent p absent, List.append_assoc, List.singleton_append] at rest
      simpa only [copies, List.foldl_cons, hp] using rest

/-- A copy has the properties of its source, in the same order. -/
theorem ownKeys_copy {source : Object κ} (hs : source.LaidOut) (prototype : Option ObjectId) :
    (copy source prototype).ownKeys = source.ownKeys := by
  have keys := keys_copies hs.nodup_ownKeys (t := .empty) (fun _ => hs.mem_ownKeys_iff.1)
    fun k _ => Table.find?_empty k
  rwa [Table.keys_empty, List.nil_append] at keys

theorem getOwn_copy_of_laidOut {source : Object κ} (hs : source.LaidOut)
    (prototype : Option ObjectId) (k : Key) :
    (copy source prototype).getOwn k = source.getOwn k := by
  rw [Object.getOwn_of_not_array rfl, copy, find?_copies, Table.find?_empty, Option.or_none]
  split
  · rfl
  · next absent =>
    exact (Option.not_isSome_iff_eq_none.1 (mt hs.mem_ownKeys_iff.2 absent)).symm

/-! ## The last two steps -/

/-- A copy of the members was made and became the `prototype` of the constructor. -/
structure Completed (constructor members : ObjectId) (above : Option ObjectId)
    (prototype : ObjectId) (w w' : World κ σ) : Prop where
  next : prototype = w.heap.next
  made : w'.heap.contains prototype = true
  copied : w'.heap.get prototype = copy (w.heap.get members) (above.filter w.heap.contains)
  owner : w'.heap.get constructor = (w.heap.get constructor).put .prototype
    (.withValue ((w.heap.get constructor).getOwn .prototype) (.object prototype))
  others : w.heap.Leaves (fun o => w.heap.contains o = true ∧ o ≠ constructor) w'.heap
  rest : w' = { w with heap := w'.heap }

theorem completed_of_copy {constructor members prototype : ObjectId} {above : Option ObjectId}
    {w v w' : World κ σ} (hc : w.heap.contains constructor = true)
    (hm : w.heap.contains members = true) (hl : (w.heap.get members).LaidOut)
    (copy : copyOnto above members w = .value prototype v)
    (close : Run.change constructor (·.define .prototype (.onlyValue (.object prototype))) v =
      .value () w') : Completed constructor members above prototype w w' := by
  rw [copyOnto_eq_allocate hm hl.nodup_ownKeys] at copy
  obtain ⟨rfl, rfl⟩ := Outcome.value.inj copy
  obtain ⟨-, rfl⟩ := Run.define_onlyValue_of_entry (Object.place_prototype _) close
  have old := Heap.get_allocate_of_contains (Class.copy (w.heap.get members) above) hc
  have new : w.heap.next ≠ constructor := by
    rintro rfl
    exact Nat.lt_irrefl _ (Heap.contains_iff.1 hc)
  exact {
    next := rfl
    made := (Heap.contains_set ..).trans (Heap.contains_allocate_next ..)
    copied := (Heap.get_set_of_ne _ _ new).trans (Heap.get_allocate_next ..)
    owner := (Heap.get_set_self _ (Heap.contains_allocate _ hc)).trans <|
      congrArg (fun o : Object κ => o.put .prototype
        (.withValue (o.getOwn .prototype) (.object w.heap.next))) old
    others := ((Heap.Leaves.allocate ..).mono fun _ ho => ho.1).trans
      ((Heap.Leaves.set ..).mono fun _ ho => ho.2)
    rest := rfl }

end Class

end Prototypal
