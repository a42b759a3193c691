import Prototypal.Proofs.Arrays.Steps
import Prototypal.Proofs.Blindness.Reserved
import Prototypal.Proofs.NotExtensible
import Prototypal.Proofs.Reached

/-!
# Writing to arrays

An assignment to an array, by whatever operation, comes down to a definition under the key, and a
deletion to a deletion.  Each changes what it names and nothing else.
-/

namespace Prototypal

variable {κ σ α : Type}

/-! ## Requests to write -/

/-- The descriptor by which an assignment stores a value. -/
def Object.assignment (o : Object κ) (k : Key) (v : Value) : Descriptor :=
  if (o.getOwn k).isSome then .onlyValue v else .data v

/-- Nothing on the chain of an object stands in the way of an assignment: if there is a property, it
holds a value that may be replaced. -/
def Heap.Assignable (h : Heap κ) (o : ObjectId) (k : Key) : Prop :=
  ∀ slot, h.findSlot o k = some slot → ∃ v, slot = .data v true

/-- The request is to define a property of `o` by `d`, or to assign it, which is to define it.  The
definition is made in the world `w'`: that is `w`, unless a getter was asked for the function that
takes the access over. -/
def Request.Writes (exec : Exec κ σ) (w w' : World κ σ) (o : ObjectId) (k : Key) (d : Descriptor) :
    Request κ α → Prop
  | .define p j d' => p = o ∧ j = k ∧ d' = d ∧ w' = w
  | .set p j v receiver =>
    receiver = .object o ∧ j = k ∧ d = (w.heap.get o).assignment k v ∧ w' = w ∧
      w.heap.Assignable p k
  | .accessDefine owner j d' => owner = .object o ∧ j = k ∧ d' = d ∧ w' = w
  | .accessSet owner j v =>
    owner = .object o ∧ j = k ∧ d = (w.heap.get o).assignment k v ∧ w' = w ∧ w.heap.Assignable o k
  | .computedSet owner key v =>
    owner = .object o ∧ w'.heap.key key = k ∧ d = (w'.heap.get o).assignment k v ∧
      w'.heap.Assignable o k ∧
      ComputedAccess.trap exec owner w.wellKnown.elementSet w = .value none w'
  | _ => False

/-- The request is to delete a property of `o`, in the world `w'`. -/
def Request.Deletes (exec : Exec κ σ) (w w' : World κ σ) (o : ObjectId) (k : Key) :
    Request κ α → Prop
  | .delete p j => p = o ∧ j = k ∧ w' = w
  | .accessDelete owner j => owner = .object o ∧ j = k ∧ w' = w
  | .computedDelete owner key =>
    owner = .object o ∧ w'.heap.key key = k ∧
      ComputedAccess.trap exec owner w.wellKnown.elementDelete w = .value none w'
  | _ => False

/-- What is left of a run is to change an object in the world `w'`. -/
def Run.AmountsTo (x : Run κ σ α) (w : World κ σ) (y : Run κ σ Unit) (w' : World κ σ) : Prop :=
  ∃ a, x w = (do y; pure a : Run κ σ α) w'

theorem Run.AmountsTo.value {x : Run κ σ α} {w w' v : World κ σ} {y : Run κ σ Unit}
    (h : x.AmountsTo w y w') (hy : y w' = .value () v) : ∃ a, x w = .value a v := by
  obtain ⟨a, hx⟩ := h
  exact ⟨a, hx.trans (Run.bind_of_value hy)⟩

theorem Run.AmountsTo.fault {x : Run κ σ α} {w w' v : World κ σ} {y : Run κ σ Unit} {f : Fault}
    (h : x.AmountsTo w y w') (hy : y w' = .fault f v) : x w = .fault f v := by
  obtain ⟨a, hx⟩ := h
  exact hx.trans (Run.bind_of_fault hy)

section
variable {exec : Exec κ σ} {w w' : World κ σ} {o p : ObjectId} {k : Key}

/-- Elements and the length of an array are never reserved. -/
theorem Object.not_isReserved {o : Object κ} (hk : o.place k ≠ .entry) : k.isReserved = false :=
  eq_false_of_ne_true fun reserved =>
    hk (place_eq_entry_iff.2 fun _ _ => Key.hideable_isReserved k reserved)

theorem Object.not_isName {o : Object κ} (hk : o.place k ≠ .entry) : k.isName = false := by
  cases k with
  | text => rfl
  | name n => exact absurd (place_eq_entry_iff.2 fun _ _ => ⟨rfl, by simp [Key.length]⟩) hk

theorem Object.slot_of_place {o : Object κ} {property : Property} (hk : o.place k ≠ .entry)
    (h : o.getOwn k = some property) : ∃ v, property.slot = .data v true := by
  unfold getOwn at h
  split at h
  · obtain ⟨v, -, rfl⟩ := Option.map_eq_some_iff.1 h
    exact ⟨v, rfl⟩
  · cases h
    exact ⟨_, rfl⟩
  · exact absurd ‹_› hk

theorem Heap.assignable_of_own {h : Heap κ} {property : Property}
    (hk : (h.get o).place k ≠ .entry) (own : (h.get o).getOwn k = some property) :
    h.Assignable o k := by
  intro slot found
  rw [findSlot, find_of_own own, Option.map_some, Option.some.injEq] at found
  exact found ▸ Object.slot_of_place hk own

theorem Member.store_eq (hk : (w.heap.get o).place k ≠ .entry) (v : Value) :
    Member.store (.object o) k v w =
      Run.change o (·.define k ((w.heap.get o).assignment k v)) w := by
  simp only [Member.store, Object.assignment, Run.viewHeap_bind]
  cases own : (w.heap.get o).getOwn k with
  | none => rfl
  | some property =>
      obtain ⟨x, slot⟩ := Object.slot_of_place hk own
      simp only [Option.map_some, slot]
      rfl

theorem Member.set_eq (hk : (w.heap.get o).place k ≠ .entry) (ha : w.heap.Assignable p k)
    (v : Value) : Member.set exec p k v (.object o) w =
      Run.change o (·.define k ((w.heap.get o).assignment k v)) w := by
  unfold Member.set
  rw [Run.viewHeap_bind, ← store_eq hk]
  cases found : w.heap.findSlot p k with
  | none => rfl
  | some slot =>
      obtain ⟨x, rfl⟩ := ha slot found
      rfl

theorem Access.set_eq (hk : (w.heap.get o).place k ≠ .entry) (ha : w.heap.Assignable o k)
    (v : Value) : Access.set exec (.object o) k v w =
      Run.change o (·.define k ((w.heap.get o).assignment k v)) w := by
  unfold Access.set
  simp only [Object.not_isReserved hk, Object.not_isName hk, Bool.false_eq_true, if_false,
    Bool.false_and, Run.viewHeap_bind]
  exact Member.set_eq hk ha v

theorem Request.Writes.amountsTo {d : Descriptor} {r : Request κ α}
    (h : r.Writes exec w w' o k d) (hk : (w'.heap.get o).place k ≠ .entry) (n : Nat) :
    (perform exec n r).AmountsTo w (Run.change o (·.define k d)) w' := by
  have unit {x : Run κ σ Unit} {y : Run κ σ Unit} {v : World κ σ} (same : x v = y v) :
      x.AmountsTo v y v := by
    refine ⟨(), same.trans ?_⟩
    rw [Run.bind_apply]
    cases y v <;> rfl
  cases r with
  | define p j d' =>
      obtain ⟨rfl, rfl, rfl, rfl⟩ := h
      exact unit rfl
  | set p j v receiver =>
      obtain ⟨rfl, rfl, rfl, rfl, ha⟩ := h
      exact unit (Member.set_eq hk ha v)
  | accessDefine owner j d' =>
      obtain ⟨rfl, rfl, rfl, rfl⟩ := h
      refine unit ?_
      simp only [perform, Access.define, Object.not_isReserved hk, Object.not_isName hk,
        Bool.false_eq_true, if_false]
  | accessSet owner j v =>
      obtain ⟨rfl, rfl, rfl, rfl, ha⟩ := h
      exact unit (Access.set_eq hk ha v)
  | computedSet owner key v =>
      obtain ⟨rfl, rfl, rfl, ha, trapped⟩ := h
      refine ⟨v, ?_⟩
      simp only [perform, ComputedAccess.set, Run.view_bind, Run.bind_of_value trapped,
        Run.viewHeap_bind]
      rw [Run.bind_apply, Access.set_eq hk ha, ← Run.bind_apply]
  | _ => cases h

theorem Request.Deletes.amountsTo {r : Request κ α} (h : r.Deletes exec w w' o k)
    (hk : (w'.heap.get o).place k ≠ .entry) (n : Nat) :
    (perform exec n r).AmountsTo w (Run.change o (·.delete k)) w' := by
  cases r with
  | delete p j =>
      obtain ⟨rfl, rfl, rfl⟩ := h
      refine ⟨(), ?_⟩
      rw [Run.bind_apply, perform]
      cases Run.change p (·.delete j) w' <;> rfl
  | accessDelete owner j =>
      obtain ⟨rfl, rfl, rfl⟩ := h
      refine ⟨true, ?_⟩
      simp only [perform, Access.delete, Object.not_isReserved hk, Bool.false_eq_true, if_false]
  | computedDelete owner key =>
      obtain ⟨rfl, rfl, trapped⟩ := h
      refine ⟨true, ?_⟩
      simp only [perform, ComputedAccess.delete, Run.view_bind, Run.bind_of_value trapped,
        Run.viewHeap_bind, Access.delete, Object.not_isReserved hk, Bool.false_eq_true, if_false]
  | _ => cases h

end

/-! ## What becomes of the elements -/

namespace Elements

/-- One element is put in. -/
structure PutAt (e : Elements) (i : Nat) (v : Value) (e' : Elements) : Prop where
  length : e'.length = max e.length (i + 1)
  self : e'.get? i = some v
  others {j : Nat} : j ≠ i → e'.get? j = e.get? j

/-- The length is set, and the elements at or past it are gone. -/
structure CutAt (e : Elements) (n : Nat) (e' : Elements) : Prop where
  length : e'.length = n
  get? (j : Nat) : e'.get? j = if j < n then e.get? j else none

/-- One element is taken out. -/
structure Without (e : Elements) (i : Nat) (e' : Elements) : Prop where
  length : e'.length = e.length
  self : e'.get? i = none
  others {j : Nat} : j ≠ i → e'.get? j = e.get? j

theorem putAt_put (e : Elements) (i : Nat) (v : Value) : e.PutAt i v (e.put i v) :=
  ⟨rfl, get?_put_self .., get?_put_of_ne e v⟩

theorem cutAt_resize (e : Elements) (n : Nat) : e.CutAt n (e.resize n) := ⟨rfl, get?_resize e n⟩

theorem without_erase (e : Elements) (i : Nat) : e.Without i (e.erase i) :=
  ⟨rfl, get?_erase_self .., get?_erase_of_ne e⟩

end Elements

/-- The run succeeds, and of the world `w'` it changes only the elements of an array. -/
def Run.Replaces (x : Run κ σ α) (w w' : World κ σ) (o : ObjectId) (Q : Elements → Prop) : Prop :=
  ∃ a e', Q e' ∧ x w = .value a
    { w' with heap := w'.heap.set o { w'.heap.get o with kind := .array e' } }

/-- What operations do to the elements `e` of an array in this world. -/
structure World.WritesArray (w' : World κ σ) (o : ObjectId) (e : Elements) : Prop where
  /-- The length and the elements that there are may always be assigned. -/
  assignable {k : Key} : k = .length ∨ (∃ i ≤ Key.maxIndex, k = .ofIndex i ∧ (e.get? i).isSome) →
    w'.heap.Assignable o k
  element {exec : Exec κ σ} {n : Nat} {w : World κ σ} {α : Type} {r : Request κ α} {i : Nat}
    {d : Descriptor} : r.Writes exec w w' o (.ofIndex i) d → i ≤ Key.maxIndex →
    d.isAccessor = false → (e.get? i).isSome ∨ (w'.heap.get o).extensible = true →
    (perform exec n r).Replaces w w' o (e.PutAt i ((d.value <|> e.get? i).getD .undefined))
  /-- Elements have no functions, and an array that takes no new properties gets none. -/
  noElement {exec : Exec κ σ} {n : Nat} {w : World κ σ} {α : Type} {r : Request κ α} {i : Nat}
    {d : Descriptor} : r.Writes exec w w' o (.ofIndex i) d → i ≤ Key.maxIndex →
    d.isAccessor = true ∨ e.get? i = none ∧ (w'.heap.get o).extensible = false →
    (perform exec n r).Refuses w w'
  length {exec : Exec κ σ} {n : Nat} {w : World κ σ} {α : Type} {r : Request κ α} {m : Nat}
    {d : Descriptor} {v : Value} : r.Writes exec w w' o .length d → d.value = some v →
    v.Measures m → (perform exec n r).Replaces w w' o (e.CutAt m)
  noLength {exec : Exec κ σ} {n : Nat} {w : World κ σ} {α : Type} {r : Request κ α}
    {d : Descriptor} {v : Value} : r.Writes exec w w' o .length d → d.value = some v →
    (∀ m, ¬ v.Measures m) → (perform exec n r).Refuses w w'
  delete {exec : Exec κ σ} {n : Nat} {w : World κ σ} {α : Type} {r : Request κ α} {i : Nat} :
    r.Deletes exec w w' o (.ofIndex i) → i ≤ Key.maxIndex →
    (perform exec n r).Replaces w w' o (e.Without i)
  push (exec : Exec κ σ) (n : Nat) (v : Value) : e.length < Number.maxLength →
    (perform exec n (.push o v)).Replaces w' w' o (e.PutAt e.length v)
  noPush (exec : Exec κ σ) (n : Nat) (v : Value) : e.length = Number.maxLength →
    (perform exec n (.push o v)).Refuses w' w'

section
variable {w w' : World κ σ} {o : ObjectId} {e e' : Elements} {k : Key} {i : Nat}

theorem Run.AmountsTo.replaces {x : Run κ σ α} {f : Object κ → Except Fault (Object κ)}
    {Q : Elements → Prop} (h : x.AmountsTo w (Run.change o f) w')
    (hf : f (w'.heap.get o) = .ok { w'.heap.get o with kind := .array e' }) (hq : Q e') :
    x.Replaces w w' o Q := by
  obtain ⟨a, hx⟩ := h.value (Run.change_of_ok hf)
  exact ⟨a, e', hq, hx⟩

theorem Run.AmountsTo.refuses {x : Run κ σ α} {f : Object κ → Except Fault (Object κ)}
    {fault : Fault} (h : x.AmountsTo w (Run.change o f) w')
    (hf : f (w'.heap.get o) = .error fault) (kind : fault.kind = .type) : x.Refuses w w' :=
  ⟨fault, kind, h.fault (Run.change_of_error hf)⟩

namespace Object

variable {object : Object κ} (ho : object.kind = .array e)
include ho

theorem define_index (hi : i ≤ Key.maxIndex) (d : Descriptor) :
    object.define (.ofIndex i) d =
      if d.isAccessor then .error (.accessorElement i)
      else if (e.get? i).isNone && !object.extensible then .error (.notExtensible (.ofIndex i))
      else .ok { object with
        kind := .array (e.put i ((d.value <|> e.get? i).getD .undefined)) } := by
  simp only [define, place_ofIndex ho hi, defineElement]
  split
  · rfl
  · split <;> rfl

theorem define_length {d : Descriptor} {v : Value} (hv : d.value = some v) :
    object.define .length d = match v.number?.bind Number.length? with
      | some n => .ok { object with kind := .array (e.resize n) }
      | none => .error .invalidLength := by
  simp only [define, place_length ho, defineLength, hv]
  cases v.number?.bind Number.length? <;> rfl

theorem delete_index (hi : i ≤ Key.maxIndex) :
    object.delete (.ofIndex i) = .ok { object with kind := .array (e.erase i) } := by
  simp only [delete, place_ofIndex ho hi]

end Object

theorem World.writesArray (ho : (w'.heap.get o).kind = .array e) : w'.WritesArray o e := by
  have element {i : Nat} (hi : i ≤ Key.maxIndex) :
      (w'.heap.get o).place (.ofIndex i) ≠ .entry := by
    rw [Object.place_ofIndex ho hi]
    nofun
  have length : (w'.heap.get o).place .length ≠ .entry := by
    rw [Object.place_length ho]
    nofun
  refine ⟨fun own => ?_, fun {exec n w α r i d} hr hi functions room => ?_,
    fun {exec n w α r i d} hr hi why => ?_, fun {exec n w α r m d v} hr hv hm => ?_,
    fun {exec n w α r d v} hr hv hm => ?_, fun {exec n w α r i} hr hi => ?_,
    fun exec n v room => ?_, fun exec n v full => ?_⟩
  · rcases own with rfl | ⟨i, hi, rfl, present⟩
    · exact Heap.assignable_of_own length (by rw [Object.getOwn, Object.place_length ho])
    · obtain ⟨v, hv⟩ := Option.isSome_iff_exists.1 present
      have own : (w'.heap.get o).getOwn (.ofIndex i) = some (.data v) := by
        rw [Object.getOwn_ofIndex ho hi, hv, Option.map_some]
      exact Heap.assignable_of_own (element hi) own
  · refine (hr.amountsTo (element hi) n).replaces ?_ (e.putAt_put i _)
    rw [Object.define_index ho hi, if_neg (by simp [functions]), if_neg]
    rcases room with present | extensible
    · simp [Option.isNone_iff_eq_none, Option.isSome_iff_ne_none.1 present]
    · simp [extensible]
  · have amounts := hr.amountsTo (element hi) n
    cases functions : d.isAccessor with
    | true =>
        have refused := Object.define_index ho hi d
        rw [if_pos functions] at refused
        exact amounts.refuses refused rfl
    | false =>
        obtain ⟨absent, fixed⟩ := why.resolve_left (by simp [functions])
        have refused := Object.define_index ho hi d
        rw [if_neg (by simp [functions]), if_pos (by simp [absent, fixed])] at refused
        exact amounts.refuses refused rfl
  · refine (hr.amountsTo length n).replaces ?_ (e.cutAt_resize m)
    rw [Object.define_length ho hv, Value.measures_iff.2 hm]
  · have refused := Object.define_length ho hv
    have none : v.number?.bind Number.length? = none :=
      Option.eq_none_iff_forall_ne_some.2 fun m same => hm m (Value.measures_iff.1 same)
    rw [none] at refused
    exact (hr.amountsTo length n).refuses refused rfl
  · exact (hr.amountsTo (element hi) n).replaces (Object.delete_index ho hi) (e.without_erase i)
  · have pushed : (w'.heap.get o).push v = .ok ((e.put e.length v).length,
        { w'.heap.get o with kind := .array (e.put e.length v) }) := by
      simp only [Object.push, ho, if_neg (Nat.ne_of_lt room)]
    exact ⟨_, _, e.putAt_put e.length v, Run.changeGet_of_ok (f := (·.push v)) pushed⟩
  · refine ⟨.invalidLength, rfl, ?_⟩
    simp only [perform, Run.changeGet, Object.push, ho, if_pos full]

end

/-- In every reached world, the elements of every array are below its length, which is no greater
than a word holds, and neither their keys nor that of the length are in the table.  Whatever is run,
arrays change by single changes, in which the index after a new element is a length that arrays may
have, and only a definition of the length makes an array shorter.  Operations that write to an array
do to its elements what they are to do, and to nothing else, or fail and change nothing. -/
theorem World.Reached.arrays {w : World κ σ} (hw : w.Reached) :
    Number.maxLength + 1 = UInt32.size ∧
    (∀ o e, (w.heap.get o).kind = .array e → e.Fits ∧
      ∀ k ∈ (w.heap.get o).table.keys, k.index? = none ∧ k ≠ .length) ∧
    (∀ (client : Client κ σ) (m n : Nat) {α : Type} (r : Request κ α),
      ∀ w' ∈ (perform (execute client m) n r w).world?,
        Relation.ReflTransGen Heap.RewritesArrays w.heap w'.heap) ∧
    (∀ (h h' : Heap κ) o e e', Heap.Rewrites h h' o e e' → e'.length < e.length →
      ∃ d v, d.value = some v ∧ v.Measures e'.length ∧
        (h.get o).define .length d = .ok (h'.get o)) ∧
    ∀ (w' : World κ σ) o e, (w'.heap.get o).kind = .array e → w'.WritesArray o e := by
  have l := hw.laidOut
  refine ⟨rfl, fun o e ho => ⟨(l o).fits ho, fun k hk => ?_⟩, fun client m n _ r => ?_,
    fun h h' o e e' rewrites => rewrites.defines_length, fun w' o e ho => World.writesArray ho⟩
  · exact Object.place_eq_entry_iff.1 ((l o).place_of_mem_keys hk) e ho
  · exact perform_rewritesArrays client m n r l

/-- An array with the greatest index takes nothing more, and is emptied by negative zero as its
length, but not changed by a half. -/
theorem World.Reached.arrays_full :
    ∃ (w : World Unit Unit) (e : Elements), w.Reached ∧ (w.heap.get ⟨0⟩).kind = .array e ∧
      e.length = Number.maxLength ∧ e.Fits ∧
      (perform (fun _ _ => Run.exhausted) 0 (.push ⟨0⟩ .null)).Refuses w w ∧
      (perform (fun _ _ => Run.exhausted) 0
        (.define ⟨0⟩ .length (.onlyValue (.number .negativeZero)))).Replaces w w ⟨0⟩ (e.CutAt 0) ∧
      (perform (fun _ _ => Run.exhausted) 0
        (.define ⟨0⟩ .length (.onlyValue (.number (.finite (1 / 2)))))).Refuses w w := by
  obtain ⟨w, reached, facts⟩ := World.exists_reached (fun _ _ => .done (.ok .null)) 0
    (.ask (.newArray [.null] none) fun _ =>
      .ask (.define ⟨0⟩ (.text "4294967294") (.data .null)) fun _ =>
      .ask .newKey fun _ => .done (.ok .null))
    (.initial id) () (fun w : World Unit Unit => (w.heap.get ⟨0⟩).elements?.map Elements.length)
    (show _ = some (some Number.maxLength) by decide +kernel)
  obtain ⟨e, elements, full⟩ := Option.map_eq_some_iff.1 facts
  have ho := Object.elements?_eq_some_iff.1 elements
  obtain ⟨-, shape, -, -, writes⟩ := reached.arrays
  have writes := writes w ⟨0⟩ e ho
  have zero : Value.Measures (.number .negativeZero) 0 := Value.measures_iff.1 (by decide)
  have half (m : Nat) : ¬ Value.Measures (.number (.finite (1 / 2))) m := by
    rw [← Value.measures_iff, show Option.bind _ _ = none by decide +kernel]
    nofun
  exact ⟨w, e, reached, ho, full, (shape _ _ ho).1, writes.noPush _ _ _ full,
    writes.length ⟨rfl, rfl, rfl, rfl⟩ rfl zero, writes.noLength ⟨rfl, rfl, rfl, rfl⟩ rfl half⟩

end Prototypal
