import Prototypal.Proofs.Assignment

/-!
# Reading back

Through access with private names, what was written is read back, and what was deleted is read from
the prototype.  The keys of other properties are other texts or other names; a name is no text.
-/

namespace Prototypal

variable {κ σ : Type}

/-! ## Keys -/

theorem NameSource.serial_nextName (source : NameSource) (display : Option String) :
    (source.nextName display).1.serial = source.names := by
  unfold nextName
  cases display.filter (· ≠ "") <;> rfl

theorem NameSource.names_nextName (source : NameSource) (display : Option String) :
    (source.nextName display).2.names = source.names + 1 := by
  unfold nextName
  cases display.filter (· ≠ "") <;> rfl

/-- A name made later is another name, whatever the displays. -/
theorem NameSource.nextName_ne {source later : NameSource} (display again : Option String)
    (after : (source.nextName display).2.names ≤ later.names) :
    (source.nextName display).1 ≠ (later.nextName again).1 := by
  intro same
  have serials := congrArg PrivateName.serial same
  rw [serial_nextName, serial_nextName] at serials
  rw [names_nextName] at after
  omega

/-! ## Deletion -/

/-- The property is gone from the object, and nothing else. -/
structure Object.Dropped (o : Object κ) (k : Key) (o' : Object κ) : Prop where
  own : o'.getOwn k = none
  others {j : Key} : j ≠ k → o'.getOwn j = o.getOwn j
  elements {e : Elements} : o.kind = .array e → ∃ e', o'.kind = .array e' ∧
    (∀ i, k.index? = some i → e.Without i e') ∧ (k.index? = none → e' = e)
  kind : o.elements? = none → o'.kind = o.kind
  prototype : o'.prototype = o.prototype
  extensible : o'.extensible = o.extensible
  order : o'.table.keys = o.table.keys ∨ o'.table.keys = o.table.keys.filter (· ≠ k)

namespace Object

variable {o o' : Object κ} {k : Key}

theorem dropped_element {e : Elements} {i : Nat} (ho : o.kind = .array e)
    (hi : i ≤ Key.maxIndex) : o.Dropped (.ofIndex i) { o with kind := .array (e.erase i) } := by
  have index : (Key.ofIndex i).index? = some i := Key.index?_eq_some_iff.2 ⟨rfl, hi⟩
  refine ⟨?_, fun {j} hj => ?_, fun {e₀} ho₀ => ⟨_, rfl, fun i' hi' => ?_, fun none => ?_⟩,
    fun none => ?_, rfl, rfl, .inl rfl⟩
  · rw [getOwn_of_index rfl index, Elements.get?_erase_self]
    rfl
  · refine getOwn_of_elements ho (fun i' hi' => Elements.get?_erase_of_ne e ?_) fun _ => rfl
    rintro rfl
    exact hj (Key.index?_eq_some_iff.1 hi').1
  · cases ho.symm.trans ho₀
    cases index.symm.trans hi'
    exact e.without_erase i
  · cases index.symm.trans none
  · cases (elements?_of_kind ho).symm.trans none

theorem dropped_entry {t : Table} (hk : o.place k = .entry) (absent : t.find? k = none)
    (others : ∀ j, j ≠ k → t.find? j = o.table.find? j)
    (order : t.keys = o.table.keys ∨ t.keys = o.table.keys.filter (· ≠ k)) :
    o.Dropped k { o with table := t } := by
  have own (j : Key) (hj : t.find? j = o.table.find? j) :
      ({ o with table := t } : Object κ).getOwn j = o.getOwn j := by
    rw [getOwn, getOwn, show ({ o with table := t } : Object κ).place j = o.place j from rfl]
    split
    · rfl
    · rfl
    · exact hj
  refine ⟨?_, fun {j} hj => own j (others j hj),
    fun {e} ho => ⟨e, ho, fun i hi => ?_, fun _ => rfl⟩, fun _ => rfl, rfl, rfl, order⟩
  · rw [getOwn, show ({ o with table := t } : Object κ).place k = .entry from hk]
    exact absent
  · cases hi.symm.trans (place_eq_entry_iff.1 hk e ho).1

theorem dropped_of_delete (h : o.delete k = .ok o') : o.Dropped k o' := by
  cases hk : o.place k with
  | element e i =>
      obtain ⟨ho, hi⟩ := of_place_eq_element hk
      obtain ⟨rfl, bound⟩ := Key.index?_eq_some_iff.1 hi
      cases (delete_index ho bound).symm.trans h
      exact dropped_element ho bound
  | length e =>
      simp only [delete, hk] at h
      cases h
  | entry =>
      simp only [delete, hk] at h
      split at h
      · split at h
        · cases h
          exact dropped_entry hk (Table.find?_erase_self ..)
            (fun j hj => Table.find?_erase_of_ne _ hj) (.inr (Table.keys_erase ..))
        · cases h
      · next absent =>
        cases h
        exact dropped_entry hk absent (fun _ _ => rfl) (.inl rfl)

end Object

/-! ## Chains without accessors -/

/-- No property under the key on the chain of the object is an accessor. -/
def Heap.PlainAt (h : Heap κ) (o : ObjectId) (k : Key) : Prop :=
  ∀ q p, h.Ascends o q → (h.get q).getOwn k = some p → p.isAccessor = false

namespace Heap

variable {h h' : Heap κ} {o : ObjectId} {k : Key}

theorem PlainAt.find (plain : h.PlainAt o k) {p : Property} (found : h.find o k = some p) :
    p.isAccessor = false := by
  rw [find_eq_findSome?] at found
  obtain ⟨q, above, own⟩ := List.exists_of_findSome?_eq_some found
  exact plain q p (ascends_of_mem above) own

theorem PlainAt.drop (plain : h.PlainAt o k)
    (same : ∀ q, (h'.get q).prototype = (h.get q).prototype)
    (own : ∀ q p, (h'.get q).getOwn k = some p → (h.get q).getOwn k = some p) :
    h'.PlainAt o k := by
  have inherits : h'.Inherits = h.Inherits := by
    funext above below
    simp only [Inherits, same]
  intro q p above hp
  rw [Ascends, inherits] at above
  exact plain q p above (own q p hp)

theorem PlainAt.above (plain : h.PlainAt o k) {p : ObjectId}
    (hp : (h.get o).prototype = some p) : h.PlainAt p k :=
  fun q property above own => plain q property (.head hp above) own

end Heap

/-! ## Worlds -/

/-- The world after a write: one object has the value, which is read back, and all else is as it
was. -/
structure World.Wrote (w : World κ σ) (o : ObjectId) (k : Key) (v : Value) (w' : World κ σ) :
    Prop where
  object : ∃ object, (w.heap.get o).Written k v object ∧
    w' = { w with heap := w.heap.set o object } ∧ w'.heap.get o = object
  reads : ∃ x, (w.heap.get o).StoresAs k v x ∧ ∀ (exec : Exec κ σ) n,
    perform exec n (.accessGet (.object o) k) w' = .value x w'
  has : Query.answer w' (.hasOwn (.object o) k) = true

/-- The world after a deletion: one object has the property no more, which is read from its
prototype if there is one, and all else is as it was. -/
structure World.Deleted (w : World κ σ) (o : ObjectId) (k : Key) (w' : World κ σ) : Prop where
  object : ∃ object, (w.heap.get o).Dropped k object ∧
    w' = { w with heap := w.heap.set o object } ∧ w'.heap.get o = object
  reads : ∃ x, (∀ (exec : Exec κ σ) n,
      perform exec n (.accessGet (.object o) k) w' = .value x w') ∧
    ((w.heap.get o).prototype = none → x = .undefined) ∧
    ∀ p, (w.heap.get o).prototype = some p → ∀ (exec : Exec κ σ) n,
      perform exec n (.accessGet (.object p) k) w' = .value x w'
  hasNot : Query.answer w' (.hasOwn (.object o) k) = false

section
variable {exec : Exec κ σ} {w : World κ σ} {o : ObjectId} {k : Key} {v : Value}

theorem perform_accessGet_of_own {x : Value} (hk : k.isReserved = false)
    (own : ((w.heap.get o).getOwn k).bind Property.value? = some x) (exec : Exec κ σ) (n : Nat) :
    perform exec n (.accessGet (.object o) k) w = .value x w := by
  change Access.get exec (.object o) k w = _
  rw [Access.get_of_unreserved hk]
  exact Member.get_of_own own _

theorem World.wrote {object : Object κ} (hk : k.isReserved = false)
    (ho : w.heap.contains o = true) (written : (w.heap.get o).Written k v object) :
    w.Wrote o k v { w with heap := w.heap.set o object } := by
  have get : (w.heap.set o object).get o = object := Heap.get_set_self _ ho
  obtain ⟨p, x, own, value, stored⟩ := written.own
  refine ⟨⟨object, written, rfl, get⟩, ⟨x, stored, perform_accessGet_of_own hk ?_⟩, ?_⟩
  · dsimp only
    rw [get, own]
    exact value
  · simp only [Query.answer, Access.hasOwn, hk, Value.object?, Option.any_some, get, own]
    rfl

theorem World.deleted {object : Object κ} (g : w.heap.Grounded) (hk : k.isReserved = false)
    (plain : w.heap.PlainAt o k) (dropped : (w.heap.get o).Dropped k object)
    (get : (w.heap.set o object).get o = object) :
    w.Deleted o k { w with heap := w.heap.set o object } := by
  have prototype (q : ObjectId) :
      ((w.heap.set o object).get q).prototype = (w.heap.get q).prototype :=
    Heap.get_set_congr (·.prototype) object dropped.prototype q
  have plain' : (w.heap.set o object).PlainAt o k := by
    refine plain.drop prototype fun q p own => ?_
    by_cases hq : q = o
    · subst hq
      rw [get, dropped.own] at own
      cases own
    · rwa [Heap.get_set_of_ne _ _ hq] at own
  have reads {q : ObjectId} (plain : (w.heap.set o object).PlainAt q k) (exec : Exec κ σ) (n : Nat)
      (w' : World κ σ) (hw' : w'.heap = w.heap.set o object) :
      perform exec n (.accessGet (.object q) k) w' =
        .value ((((w.heap.set o object).find q k).bind Property.value?).getD .undefined) w' := by
    change Access.get exec (.object q) k _ = _
    rw [Access.get_of_unreserved hk, ← hw']
    exact Member.get_of_plain (fun p found => plain.find (hw' ▸ found)) _
  -- With nothing of its own the object shows what its prototype does.
  have found := (g.set dropped.prototype).find_eq o k
  rw [get, dropped.own, Option.none_or, dropped.prototype] at found
  refine ⟨⟨object, dropped, rfl, get⟩, ⟨_, fun exec n => reads plain' exec n _ rfl, fun root => ?_,
    fun p hp exec n => ?_⟩, ?_⟩
  · rw [found, root]
    rfl
  · rw [found, hp]
    exact reads (plain'.above ((prototype o).trans hp)) exec n _ rfl
  · simp only [Query.answer, Access.hasOwn, hk, Value.object?, Option.any_some, get, dropped.own]
    rfl

theorem Access.set_wrote (hk : k.isReserved = false) (plain : w.heap.PlainAt o k) (v : Value) :
    (∃ w', Access.set exec (.object o) k v w = .value () w' ∧ w.Wrote o k v w') ∨
      ∃ f, Access.set exec (.object o) k v w = .fault f w := by
  have fresh : k.isName && !w.heap.has o k → Access.set exec (.object o) k v w =
      Run.change o (·.define k (.hidden v)) w := by
    intro new
    simp only [Access.set, hk, Bool.false_eq_true, if_false, Run.viewHeap_bind, new, if_true]
  have assigned : ¬ (k.isName && !w.heap.has o k) → Access.set exec (.object o) k v w =
      Member.set exec o k v (.object o) w := by
    intro old
    simp only [Access.set, hk, Bool.false_eq_true, if_false, Run.viewHeap_bind, old]
  by_cases new : k.isName && !w.heap.has o k
  · rw [fresh new]
    cases defined : (w.heap.get o).define k (.hidden v) with
    | error f => exact .inr ⟨f, Run.change_of_error (f := (·.define k _)) defined⟩
    | ok object =>
        refine .inl ⟨_, Run.change_of_ok (f := (·.define k _)) defined, ?_⟩
        exact World.wrote hk (Heap.contains_of_define defined)
          (Object.written_of_define rfl rfl defined)
  · rw [assigned new]
    have noSetter (p : Property) (getter : Option ObjectId) (setter : ObjectId)
        (found : w.heap.find o k = some p) : p.slot ≠ .accessor getter (some setter) := by
      intro slot
      have data := plain.find found
      rw [Property.isAccessor, slot] at data
      cases data
    by_cases forbids : w.heap.Forbids (w.heap.find o k) k v (.object o)
    · have refuses : (Member.set exec o k v (.object o)).Refuses w w :=
        Member.set_refuses noSetter forbids
      obtain ⟨f, -, refused⟩ := refuses
      exact .inr ⟨f, refused⟩
    · have assigns : ∃ target, Value.object o = .object target ∧
          (Member.set exec o k v (.object o)).Assigns w target k v :=
        Member.set_assigns noSetter forbids
      obtain ⟨_, ⟨⟩, held, object, written, set⟩ := assigns
      exact .inl ⟨_, set, World.wrote hk held written.toWritten⟩

theorem Access.delete_deleted (g : w.heap.Grounded) (hk : k.isReserved = false)
    (plain : w.heap.PlainAt o k) :
    (∃ w', Access.delete (.object o) k w = .value true w' ∧ w.Deleted o k w') ∨
      ∃ f, Access.delete (.object o) k w = .fault f w := by
  have unfolded : Access.delete (.object o) k w =
      (do Run.change o (·.delete k); pure true : Run κ σ Bool) w := by
    simp only [Access.delete, hk, Bool.false_eq_true, if_false]
  rw [unfolded]
  cases deleted : (w.heap.get o).delete k with
  | error f =>
      exact .inr ⟨f, Run.bind_of_fault (Run.change_of_error (f := (·.delete k)) deleted)⟩
  | ok object =>
      have get : (w.heap.set o object).get o = object := by
        cases held : w.heap.contains o with
        | true => exact Heap.get_set_self _ held
        | false =>
            -- What is no object has nothing to delete.
            rw [Heap.set_of_not_contains _ held]
            rw [Heap.get_of_not_contains held] at deleted ⊢
            simp only [Object.delete, Object.place_of_not_array (o := .inert) rfl,
              show (Object.inert : Object κ).table.find? k = none from Table.find?_empty k]
              at deleted
            cases deleted
            rfl
      refine .inl ⟨_, Run.bind_of_value (Run.change_of_ok (f := (·.delete k)) deleted), ?_⟩
      exact World.deleted g hk plain (Object.dropped_of_delete deleted) get

end

/-- In every reached world, under a key that is not reserved and has no accessor on the chain of an
object, a write to the object fails and changes nothing, or succeeds and the value is read back; and
a deletion fails and changes nothing, or succeeds and what the prototype has is read.  What is under
other keys and in other objects stays: names made one after the other are other keys, whatever they
display, and a name is not the text that displays it. -/
theorem World.Reached.store_laws {w : World κ σ} (hw : w.Reached) {o : ObjectId} {k : Key}
    (hk : k.isReserved = false) (plain : w.heap.PlainAt o k) (exec : Exec κ σ) (n : Nat)
    (v : Value) :
    ((∃ w', perform exec n (.accessSet (.object o) k v) w = .value () w' ∧ w.Wrote o k v w') ∨
      ∃ f, perform exec n (.accessSet (.object o) k v) w = .fault f w) ∧
    ((∃ w', perform exec n (.accessDelete (.object o) k) w = .value true w' ∧
        w.Deleted o k w') ∨
      ∃ f, perform exec n (.accessDelete (.object o) k) w = .fault f w) ∧
    (∀ (source later : NameSource) (display again : Option String),
      (source.nextName display).2.names ≤ later.names →
      Key.name (source.nextName display).1 ≠ .name (later.nextName again).1) ∧
    ∀ name : PrivateName, Key.name name ≠ .text (Key.name name).display :=
  ⟨Access.set_wrote hk plain v, Access.delete_deleted hw.grounded hk plain,
    fun _ _ display again after same =>
      NameSource.nextName_ne display again after (Key.name.inj same),
    fun _ => nofun⟩

/-- An element that was written is read back, and after its deletion that of the prototype. -/
theorem World.Reached.store_laws_element :
    ∃ w written deleted : World Unit Unit, w.Reached ∧ w.heap.PlainAt ⟨1⟩ (.ofIndex 0) ∧
      perform (fun _ _ => Run.exhausted) 0 (.accessSet (.object ⟨1⟩) (.ofIndex 0) .null) w =
        .value () written ∧
      perform (fun _ _ => Run.exhausted) 0 (.accessGet (.object ⟨1⟩) (.ofIndex 0)) written =
        .value .null written ∧
      perform (fun _ _ => Run.exhausted) 0 (.accessDelete (.object ⟨1⟩) (.ofIndex 0)) w =
        .value true deleted ∧
      perform (fun _ _ => Run.exhausted) 0 (.accessGet (.object ⟨1⟩) (.ofIndex 0)) deleted =
        .value (.string "inherited") deleted := by
  obtain ⟨w, reached, facts⟩ := World.exists_reached (fun _ _ => .done (.ok .null)) 0
    (.ask (.newObject none) fun _ =>
      .ask (.define ⟨0⟩ (.ofIndex 0) (.data (.string "inherited"))) fun _ =>
      .ask (.newArray [.string "own"] (some ⟨0⟩)) fun _ =>
      .ask .newKey fun _ => .done (.ok .null))
    (.initial id) () (fun w : World Unit Unit =>
      ([(⟨0⟩ : ObjectId), ⟨1⟩].map fun q =>
        ((w.heap.get q).prototype, (w.heap.get q).getOwn (.ofIndex 0)),
      (perform (fun _ _ => Run.exhausted) 0
        (.accessSet (.object ⟨1⟩) (.ofIndex 0) .null) w).value?,
      (perform (fun _ _ => Run.exhausted) 0
        (.accessDelete (.object ⟨1⟩) (.ofIndex 0)) w).value?))
    (show _ = some ([(none, some (.data (.string "inherited"))),
      (some ⟨0⟩, some (.data (.string "own")))], some (), some true) by decide +kernel)
  simp only [Prod.mk.injEq, List.map_cons, List.map_nil, List.cons.injEq, and_true] at facts
  obtain ⟨⟨⟨root, inherited⟩, prototype, own⟩, set, delete⟩ := facts
  have plain : w.heap.PlainAt ⟨1⟩ (.ofIndex 0) := by
    intro q p above hp
    rcases above.cases_head with rfl | ⟨r, inherits, above⟩
    · cases own.symm.trans hp
      rfl
    · cases prototype.symm.trans inherits
      rcases above.cases_head with rfl | ⟨r, inherits, -⟩
      · cases inherited.symm.trans hp
        rfl
      · cases root.symm.trans inherits
  obtain ⟨sets, deletes, -⟩ := reached.store_laws (k := .ofIndex 0) (by decide) plain
    (fun _ _ => Run.exhausted) 0 .null
  obtain ⟨written, wrote, read⟩ := sets.resolve_right fun ⟨f, fault⟩ => by
    rw [fault] at set
    cases set
  obtain ⟨deleted, dropped, bare⟩ := deletes.resolve_right fun ⟨f, fault⟩ => by
    rw [fault] at delete
    cases delete
  obtain ⟨x, stored, read⟩ := read.reads
  have same : x = .null := stored.resolve_right fun ⟨_, length, _⟩ => absurd length (by decide)
  obtain ⟨y, read', -, above⟩ := bare.reads
  obtain ⟨object, -, shape, -⟩ := bare.object
  have kept : deleted.heap.get ⟨0⟩ = w.heap.get ⟨0⟩ := by
    rw [shape]
    exact Heap.get_set_of_ne _ _ (by decide)
  have found := perform_accessGet_of_own (w := deleted) (k := .ofIndex 0) (by decide)
    (show _ = some (.string "inherited") by rw [kept, inherited]; rfl) (fun _ _ => Run.exhausted) 0
  cases (above _ prototype _ 0).symm.trans found
  exact ⟨w, written, deleted, reached, plain, wrote, same ▸ read _ 0, dropped, read' _ 0⟩

end Prototypal
