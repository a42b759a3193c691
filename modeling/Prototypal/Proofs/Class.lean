import Prototypal.Class
import Prototypal.Proofs.Agreement
import Prototypal.Proofs.DataProperty

/-!
# Making a class

A class that was made went through four steps, each of which ended with a value.  One of them copies
properties onto a new object, which never fails.
-/

namespace Prototypal.Class

variable {κ σ : Type}

/-- What happened in the making of a class, step by step. -/
structure Created (exec : Exec κ σ) (constructor members : ObjectId) (parent : Value)
    (w w' : World κ σ) (above : Option ObjectId) (prototype : ObjectId)
    (linked inherited copied : World κ σ) : Prop where
  allowed : parent = .null ∨ ∃ p, parent = .object p
  /-- The members get their constructor. -/
  link : Run.change members (·.define .constructor (.onlyValue (.object constructor))) w =
    .value () linked
  inherit : inheritFrom exec constructor parent.object? linked = .value above inherited
  copy : copyOnto above members inherited = .value prototype copied
  /-- The constructor gets its prototype. -/
  close : Run.change constructor (·.define .prototype (.onlyValue (.object prototype))) copied =
    .value () w'

/-- The making of a class whose parent is an object or none. -/
def createBelow (exec : Exec κ σ) (constructor members : ObjectId) (parent : Option ObjectId) :
    Run κ σ ObjectId := do
  Run.change members (·.define .constructor (.onlyValue (.object constructor)))
  let above ← inheritFrom exec constructor parent
  let prototype ← copyOnto above members
  Run.change constructor (·.define .prototype (.onlyValue (.object prototype)))
  pure constructor

theorem create_of_allowed {exec : Exec κ σ} {constructor members : ObjectId} {parent : Value}
    (h : parent = .null ∨ ∃ p, parent = .object p) :
    create exec constructor members parent =
      createBelow exec constructor members parent.object? := by
  rcases h with rfl | ⟨p, rfl⟩ <;> rfl

theorem create_of_not_allowed {exec : Exec κ σ} {constructor members : ObjectId} {parent : Value}
    (h : ¬ (parent = .null ∨ ∃ p, parent = .object p)) :
    create exec constructor members parent = Run.fail .invalidParent := by
  cases parent with
  | null => exact absurd (.inl rfl) h
  | object p => exact absurd (.inr ⟨p, rfl⟩) h
  | _ => rfl

theorem create_eq_value {exec : Exec κ σ} {constructor members c : ObjectId} {parent : Value}
    {w w' : World κ σ} (h : create exec constructor members parent w = .value c w') :
    c = constructor ∧ ∃ above prototype linked inherited copied,
      Created exec constructor members parent w w' above prototype linked inherited copied := by
  by_cases allowed : parent = .null ∨ ∃ p, parent = .object p
  · rw [create_of_allowed allowed] at h
    obtain ⟨_, linked, link, h⟩ := Run.bind_eq_value h
    obtain ⟨above, inherited, inherit, h⟩ := Run.bind_eq_value h
    obtain ⟨prototype, copied, copy, h⟩ := Run.bind_eq_value h
    obtain ⟨_, closed, close, h⟩ := Run.bind_eq_value h
    cases h
    exact ⟨rfl, above, prototype, linked, inherited, copied, allowed, link, inherit, copy, close⟩
  · rw [create_of_not_allowed allowed] at h
    cases h

/-! ## Copies -/

/-- A table with the own property of an object stored for each of some keys. -/
def copies (source : Object κ) (keys : List Key) (t : Table) : Table :=
  keys.foldl (fun t k => match source.getOwn k with | some p => t.put k p | none => t) t

theorem find?_copies (source : Object κ) (keys : List Key) (t : Table) (k : Key) :
    (copies source keys t).find? k =
      if k ∈ keys then (source.getOwn k).or (t.find? k) else t.find? k := by
  induction keys generalizing t with
  | nil => rfl
  | cons j keys ih =>
      simp only [copies, List.foldl_cons] at ih ⊢
      rw [ih]
      cases hp : source.getOwn j with
      | none => by_cases hj : k = j <;> simp [hj, hp]
      | some p =>
          by_cases hj : k = j
          · subst hj
            simp [hp, Table.find?_put_self]
          · simp [hj, Table.find?_put_of_ne _ _ hj]

/-- One property is copied onto an ordinary object that does not have it. -/
theorem define_copy {object : Object κ} {k : Key} (hk : object.kind = .ordinary)
    (hx : object.extensible = true) (ha : object.table.find? k = none) (p : Property) :
    object.define k p.toDescriptor = .ok (object.put k p) := by
  simp [Object.put, Object.define, Object.place, hk, Object.defineEntry, ha, hx, Except.map,
    Property.ofDescriptor_toDescriptor]

/-- One round of the loop that copies properties. -/
def copyProperty (source target : ObjectId) (k : Key) : Run κ σ Unit := do
  match ← Run.viewHeap fun h => (h.get source).getOwn k with
  | some p => Run.change target (·.define k p.toDescriptor)
  | none => pure ()

theorem copyProperty_of_none {source : ObjectId} {k : Key} {w : World κ σ}
    (hp : (w.heap.get source).getOwn k = none) (target : ObjectId) :
    copyProperty source target k w = .value () w := by
  rw [copyProperty, Run.viewHeap_bind, hp]
  rfl

theorem copyProperty_of_some {source target : ObjectId} {k : Key} {p : Property} {w : World κ σ}
    (hp : (w.heap.get source).getOwn k = some p)
    (hk : (w.heap.get target).kind = .ordinary) (hx : (w.heap.get target).extensible = true)
    (ha : (w.heap.get target).table.find? k = none) :
    copyProperty source target k w =
      .value () { w with heap := w.heap.set target ((w.heap.get target).put k p) } := by
  rw [copyProperty, Run.viewHeap_bind, hp]
  exact Run.change_of_ok (f := (·.define k p.toDescriptor)) (define_copy hk hx ha p)

/-- Properties are copied, one by one, onto an ordinary object that has none of them. -/
theorem forM_copy {source target : ObjectId} {object : Object κ} (hk : object.kind = .ordinary)
    (hx : object.extensible = true) (hs : source ≠ target) {keys : List Key} (hn : keys.Nodup)
    {w : World κ σ} (ht : w.heap.contains target = true) (hg : w.heap.get target = object)
    (ha : ∀ k ∈ keys, object.table.find? k = none) :
    (keys.forM (copyProperty source target) : Run κ σ Unit) w =
      let copied := { object with table := copies (w.heap.get source) keys object.table }
      Outcome.value () { w with heap := w.heap.set target copied } := by
  induction keys generalizing object w with
  | nil =>
      subst hg
      change Outcome.value () w =
        Outcome.value () { w with heap := w.heap.set target (w.heap.get target) }
      rw [Heap.set_get]
  | cons k keys ih =>
      obtain ⟨fresh, hn⟩ := List.nodup_cons.1 hn
      have absent := ha k List.mem_cons_self
      match hp : (w.heap.get source).getOwn k with
      | none =>
          have others : ∀ j ∈ keys, object.table.find? j = none := fun j hj =>
            ha j (List.mem_cons_of_mem _ hj)
          refine (Run.bind_of_value (copyProperty_of_none hp target)).trans ?_
          rw [ih hk hx hn ht hg others]
          simp only [copies, List.foldl_cons, hp]
      | some p =>
          subst hg
          have kind : ((w.heap.get target).put k p).kind = .ordinary := hk
          have others : ∀ j ∈ keys, ((w.heap.get target).put k p).table.find? j = none :=
            fun j hj => by
              have hjk : j ≠ k := fun e => fresh (e ▸ hj)
              exact (Table.find?_put_of_ne _ _ hjk).trans (ha j (List.mem_cons_of_mem _ hj))
          refine (Run.bind_of_value (copyProperty_of_some hp hk hx absent)).trans ?_
          rw [ih kind hx hn (by rwa [Heap.contains_set]) (Heap.get_set_self _ ht) others]
          simp only [copies, List.foldl_cons, hp, Heap.set_set, Heap.get_set_of_ne _ _ hs]
          rfl

/-- The copy of an object, with a prototype of its own. -/
def copy (source : Object κ) (prototype : Option ObjectId) : Object κ :=
  { Object.make .ordinary prototype with table := copies source source.ownKeys .empty }

theorem getOwn_copy {source : Object κ} (hs : source.elements? = none)
    (prototype : Option ObjectId) (k : Key) :
    (copy source prototype).getOwn k = source.getOwn k := by
  rw [Object.getOwn_of_not_array rfl, copy, find?_copies, Table.find?_empty, Option.or_none]
  split
  · rfl
  · next absent =>
    rw [Object.ownKeys_of_not_array hs, Table.mem_keys_iff] at absent
    rw [Object.getOwn_of_not_array hs]
    exact (Option.not_isSome_iff_eq_none.1 absent).symm

/-- To copy an object property by property is to allocate its copy. -/
theorem copyOnto_eq_allocate {prototype : Option ObjectId} {source : ObjectId} {w : World κ σ}
    (hs : w.heap.contains source = true) (hn : (w.heap.get source).ownKeys.Nodup) :
    copyOnto prototype source w = Run.allocate (copy (w.heap.get source) prototype) w := by
  have source_ne : source ≠ w.heap.next := fun e => by
    rw [e, Heap.contains_iff] at hs
    exact Nat.lt_irrefl _ hs
  have kept := Heap.get_allocate_of_contains (.make .ordinary prototype) hs
  have made := Heap.get_allocate_next w.heap (.make .ordinary prototype)
  change (do
    let target ← Run.allocate (.make .ordinary prototype)
    let keys ← Run.viewHeap fun h => (h.get source).ownKeys
    keys.forM (copyProperty source target)
    pure target : Run κ σ ObjectId) w = _
  rw [Run.allocate_bind, Run.viewHeap_bind]
  dsimp only
  rw [kept]
  refine (Run.bind_of_value (forM_copy rfl rfl source_ne hn
    (Heap.contains_allocate_next ..) made fun k _ => Table.find?_empty k)).trans ?_
  simp only [kept, Run.pure_apply]
  exact congrArg (fun h => Outcome.value w.heap.next { w with heap := h })
    (Heap.set_allocate_next w.heap _ (copy (w.heap.get source) prototype))

/-- What the copying of an object that is not an array does in the world. -/
theorem copyOnto_eq_value {prototype : Option ObjectId} {source target : ObjectId}
    {w w' : World κ σ}
    (hc : w.heap.contains source = true) (hs : (w.heap.get source).elements? = none)
    (h : copyOnto prototype source w = .value target w') :
    target = w.heap.next ∧ w.heap.Leaves (w.heap.contains · = true) w'.heap ∧
      w'.heap.contains target = true ∧
      w'.heap.get target = copy (w.heap.get source) (prototype.filter w.heap.contains) := by
  have nodup : (w.heap.get source).ownKeys.Nodup := by
    rw [Object.ownKeys_of_not_array hs]
    exact Table.nodup_keys _
  rw [copyOnto_eq_allocate hc nodup] at h
  cases h
  exact ⟨rfl, .allocate .., Heap.contains_allocate_next .., Heap.get_allocate_next ..⟩

end Prototypal.Class
