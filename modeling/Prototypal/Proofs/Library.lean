import Prototypal.Class
import Prototypal.ComputedAccess
import Prototypal.Proofs.Lockstep
import Prototypal.Realm

/-!
# The library in lockstep

Each operation that does not concern deferred results takes the same steps in related worlds, if the
bodies that it enters do.
-/

namespace Prototypal

/-- The descriptor that a definition through access carries out: under a private name nothing is
enumerable. -/
def Descriptor.under (d : Descriptor) (k : Key) : Descriptor :=
  if k.isName then { d with enumerable := some false } else d

open Run (Agree)

variable {κ σ τ : Type} {S : Heap κ → Heap κ → Prop} {R : World κ σ → World κ τ → Prop}

/-- Bodies agree for every invocation. -/
def Lockstep.ExecAgree (R : World κ σ → World κ τ → Prop) (exec : Exec κ σ) (exec' : Exec κ τ) :
    Prop :=
  ∀ body invocation, Agree R (exec body invocation) (exec' body invocation)

namespace PlainLockstep

variable (L : PlainLockstep S R) {exec : Exec κ σ} {exec' : Exec κ τ}
  (he : Lockstep.ExecAgree R exec exec')

/-! ## Calls -/

section
include L he

theorem call (f : ObjectId) (this : Value) (arguments : List Value) :
    Agree R (Prototypal.call exec f this arguments) (Prototypal.call exec' f this arguments) := by
  refine (L.viewHeap _).bind fun o => ?_
  cases o.body? with
  | some body => exact he ..
  | none => exact .fail _

theorem get (o : ObjectId) (k : Key) (receiver : Value) :
    Agree R (Member.get exec o k receiver) (Member.get exec' o k receiver) := by
  refine (L.viewHeap _).bind fun slot => ?_
  split
  · exact .pure _
  · exact L.call he ..
  · exact .pure _
  · exact .pure _

omit he in
/-- What assignment stores is absent before or only changes its value. -/
theorem storeAt {v : World κ σ} {w : World κ τ} (h : R v w) (receiver : Value) (k : Key) (x : Value)
    (hs : ∀ {target object}, receiver = .object target → (v.heap.get target).getOwn k = none →
      (v.heap.get target).define k (.data x) = .ok object →
      R { v with heap := v.heap.set target object } { w with heap := v.heap.set target object }) :
    (Member.store receiver k x v).Agree R (Member.store receiver k x w) := by
  unfold Member.store
  split
  · next target =>
    rw [Run.bind_apply, Run.bind_apply]
    simp only [Run.viewHeap, Run.view, ← L.heap h]
    cases own : (v.heap.get target).getOwn k with
    | none => exact L.changeAt h (hs rfl own)
    | some p =>
        obtain ⟨slot, enumerable, configurable⟩ := p
        cases slot with
        | data y writable =>
            cases writable with
            | true => exact L.defineDiscreet (.onlyValue _) h
            | false => exact .fault h
        | accessor => exact .fault h
  · exact .fault h

/-- Where no setter is found, an assignment stores in place of a writable value or of nothing. -/
theorem setAt {v : World κ σ} {w : World κ τ} (h : R v w) (o : ObjectId) (k : Key)
    (x receiver : Value)
    (hs : ∀ {target object}, receiver = .object target → (v.heap.get target).getOwn k = none →
      (∀ u, v.heap.findSlot o k = some u → ∃ y, u = .data y true) →
      (v.heap.get target).define k (.data x) = .ok object →
      R { v with heap := v.heap.set target object } { w with heap := v.heap.set target object }) :
    (Member.set exec o k x receiver v).Agree R (Member.set exec' o k x receiver w) := by
  unfold Member.set
  rw [Run.bind_apply, Run.bind_apply]
  simp only [Run.viewHeap, Run.view, ← L.heap h]
  cases found : v.heap.findSlot o k with
  | none => exact L.storeAt h _ _ _ fun ht absent => hs ht absent (by simp [found])
  | some slot =>
      cases slot with
      | data y writable =>
          cases writable with
          | true => exact L.storeAt h _ _ _ fun ht absent => hs ht absent (by simp [found])
          | false => exact .fault h
      | accessor getter setter =>
          cases setter with
          | some setter => exact (L.call he ..).discard h
          | none => exact .fault h

theorem set (o : ObjectId) (k : Key) (x receiver : Value)
    (hs : ∀ target, receiver = .object target → Heap.Permits S target k (.data x)) :
    Agree R (Member.set exec o k x receiver) (Member.set exec' o k x receiver) :=
  fun _ _ h => L.setAt he h o k x receiver fun ht _ _ hd => L.step h (hs _ ht hd)

theorem construct (f : ObjectId) (arguments : List Value) :
    Agree R (Prototypal.construct exec f arguments) (Prototypal.construct exec' f arguments) := by
  refine (L.viewHeap _).bind fun o => ?_
  split
  · refine (L.get he ..).bind fun prototype => ?_
    refine (L.make (.make .ordinary _)).bind fun made => ?_
    exact (L.call he ..).bind fun result => .pure _
  · exact .fail _

/-! ## Access -/

theorem accessGet (owner : Value) (k : Key) :
    Agree R (Access.get exec owner k) (Access.get exec' owner k) := by
  unfold Access.get
  split
  · exact .pure _
  · split
    · exact L.get he ..
    · exact .fail _
    · exact .fail _
    · exact .pure _
    · exact .pure _

theorem accessSet (owner : Value) (k : Key) (v : Value)
    (hs : ∀ target, owner = .object target → Heap.Permits S target k (.data v)) :
    Agree R (Access.set exec owner k v) (Access.set exec' owner k v) := by
  unfold Access.set
  split
  · exact .fail _
  · split
    · refine (L.viewHeap _).bind fun present => ?_
      split
      · exact L.defineDiscreet (.hidden _)
      · exact L.set he _ _ _ _ hs
    · exact .fail _

omit he in
theorem accessDelete (owner : Value) (k : Key) :
    Agree R (Access.delete owner k) (Access.delete owner k) := by
  unfold Access.delete
  split
  · exact .pure _
  · split
    · exact L.deleteOwn.bind fun _ => .pure _
    · exact .fail _
    · exact .fail _
    · exact .pure _

omit he in
theorem accessDefine {owner : Value} {k : Key} {d : Descriptor}
    (hd : ∀ o, owner = .object o → Heap.Permits S o k (d.under k)) :
    Agree R (Access.define owner k d) (Access.define owner k d) := by
  unfold Access.define
  split
  · have hd := @hd _ rfl
    unfold Descriptor.under at hd
    split
    · exact .fail _
    · split at hd <;> simp only [*, if_true, Bool.false_eq_true, if_false]
      · exact L.change hd
      · exact L.change hd
  · exact .fail _

/-! ## Computed access -/

theorem trap (owner : Value) (name : PrivateName) :
    Agree R (ComputedAccess.trap exec owner name) (ComputedAccess.trap exec' owner name) := by
  unfold ComputedAccess.trap
  split
  · refine (L.viewHeap _).bind fun present => ?_
    split
    · exact (L.get he ..).bind fun handler => L.viewHeap _
    · exact .pure _
  · exact .pure _

theorem computedGet (owner key : Value) :
    Agree R (ComputedAccess.get exec owner key) (ComputedAccess.get exec' owner key) := by
  refine L.viewWellKnown.bind fun names => (L.trap he ..).bind fun handler => ?_
  cases handler with
  | some f => exact L.call he ..
  | none => exact (L.viewHeap _).bind fun k => L.accessGet he ..

theorem computedSet (owner key v : Value)
    (hs : ∀ target, owner = .object target → ∀ k, Heap.Permits S target k (.data v)) :
    Agree R (ComputedAccess.set exec owner key v) (ComputedAccess.set exec' owner key v) := by
  refine L.viewWellKnown.bind fun names => (L.trap he ..).bind fun handler => ?_
  cases handler with
  | some f => exact (L.call he ..).discard.bind fun _ => .pure v
  | none => exact (L.viewHeap _).bind fun k =>
      (L.accessSet he _ _ _ fun target ht => hs target ht k).bind fun _ => .pure v

theorem computedDelete (owner key : Value) :
    Agree R (ComputedAccess.delete exec owner key) (ComputedAccess.delete exec' owner key) := by
  refine L.viewWellKnown.bind fun names => (L.trap he ..).bind fun handler => ?_
  cases handler with
  | some f => exact (L.call he ..).bind fun answer => .pure _
  | none => exact (L.viewHeap _).bind fun k => L.accessDelete ..

/-! ## Classes -/

omit he in
theorem copyOnto (hcopy : Heap.Copies S) (prototype : Option ObjectId) (source : ObjectId) :
    Agree R (Class.copyOnto prototype source) (Class.copyOnto prototype source) := by
  refine (L.make (.make .ordinary _)).bind fun target => (L.viewHeap _).bind fun keys => ?_
  refine .bind (.forM keys fun k => L.viewHeapBind fun {v w} h => ?_) fun _ => .pure target
  cases hp : (v.heap.get source).getOwn k with
  | some p => exact L.changeAt h fun hd => L.step h (hcopy hp hd)
  | none => exact .value h

omit he in
theorem markMethods (o : ObjectId) (names : List String) :
    Agree R (Class.markMethods o names) (Class.markMethods o names) :=
  .bind (.forM names fun _ => L.defineDiscreet (⟨rfl, rfl, by simp⟩)) fun _ => .pure o

theorem inheritFrom (constructor : ObjectId) (parent : Option ObjectId) :
    Agree R (Class.inheritFrom exec constructor parent)
      (Class.inheritFrom exec' constructor parent) := by
  unfold Class.inheritFrom
  split
  · exact .pure _
  · refine (L.viewHeap _).bind fun present => ?_
    split
    · refine (L.setPrototype ..).bind fun _ => (L.get he ..).bind fun above => ?_
      split
      · exact .pure _
      · exact .pure _
      · exact .fail _
    · exact .pure _

theorem createClass (hcopy : Heap.Copies S) (constructor members : ObjectId) (parent : Value) :
    Agree R (Class.create exec constructor members parent)
      (Class.create exec' constructor members parent) := by
  have create (parent : Option ObjectId) (member : Unit) :=
    (L.inheritFrom he constructor parent).bind fun above =>
    (L.copyOnto hcopy above members).bind fun prototype =>
    (L.defineDiscreet (o := constructor) (k := .prototype)
      (.onlyValue (.object prototype))).bind fun _ =>
    Agree.pure constructor
  unfold Class.create
  split
  · exact (L.defineDiscreet (.onlyValue _)).bind (create _)
  · exact (L.defineDiscreet (.onlyValue _)).bind (create _)
  · exact .fail _

theorem inheritedSlot (constructor : ObjectId) (k : Key) :
    Agree R (Class.inheritedSlot exec constructor k) (Class.inheritedSlot exec' constructor k) :=
  (L.get he ..).bind fun _ => L.viewHeap _

theorem superCall (self : Value) (constructor : ObjectId) (k : Key) (arguments : List Value) :
    Agree R (Class.superCall exec self constructor k arguments)
      (Class.superCall exec' self constructor k arguments) := by
  refine (L.inheritedSlot he ..).bind fun slot => ?_
  split
  · refine (L.viewHeap _).bind fun f => ?_
    cases f with
    | some f => exact L.call he ..
    | none => exact .fail _
  · refine (L.call he ..).bind fun method => (L.viewHeap _).bind fun f => ?_
    cases f with
    | some f => exact L.call he ..
    | none => exact .fail _
  · exact .fail _
  · exact .fail _

theorem superGet (self : Value) (constructor : ObjectId) (k : Key) :
    Agree R (Class.superGet exec self constructor k)
      (Class.superGet exec' self constructor k) := by
  refine (L.inheritedSlot he ..).bind fun slot => ?_
  split
  · exact .pure _
  · exact L.call he ..
  · exact .pure _
  · exact .pure _

theorem superSet (self : Value) (constructor : ObjectId) (k : Key) (v : Value) :
    Agree R (Class.superSet exec self constructor k v)
      (Class.superSet exec' self constructor k v) := by
  refine (L.inheritedSlot he ..).bind fun slot => ?_
  split
  · exact (L.call he ..).discard
  · exact .fail _

/-! ## Iteration -/

omit he in
theorem markGenerator (o : ObjectId) :
    Agree R (Iteration.markGenerator o) (Iteration.markGenerator o) :=
  L.viewWellKnown.bind fun _ => L.defineDiscreet (.hidden _)

omit he in
theorem install (o : ObjectId) : Agree R (Iteration.install o) (Iteration.install o) :=
  L.viewWellKnown.bind fun _ => (L.make (.make .iterate _)).bind fun _ =>
    L.defineDiscreet (.hidden _)

omit he in
theorem viewCursor (cursor : CursorId) :
    Agree R (Run.view (·.cursor cursor)) (Run.view (·.cursor cursor)) :=
  .view fun h => by simp only [World.cursor, L.cursors h]

theorem current (cursor : CursorId) (source : Value) :
    Agree R (Iteration.current exec cursor source) (Iteration.current exec' cursor source) := by
  refine (L.viewCursor cursor).bind fun c => ?_
  split
  · exact .pure _
  · exact L.accessGet he ..

theorem iterator (collection : Value) :
    Agree R (Iteration.iterator exec collection) (Iteration.iterator exec' collection) := by
  refine L.viewWellKnown.bind fun names => (L.viewHeap _).bind fun marked => ?_
  split
  · exact .pure _
  · refine (L.accessGet he ..).bind fun method => (L.viewHeap _).bind fun f => ?_
    cases f with
    | some f => exact L.call he ..
    | none => exact (L.viewHeap _).bind fun text => .fail _

theorem visitAll (moveNext : ObjectId) (iterator : Value) {visit : Value → Run κ σ Unit}
    {visit' : Value → Run κ τ Unit} (hv : ∀ v, Agree R (visit v) (visit' v)) (n : Nat) :
    Agree R (Iteration.visitAll exec moveNext iterator visit n)
      (Iteration.visitAll exec' moveNext iterator visit' n) := by
  induction n with
  | zero => exact .exhausted
  | succ n ih =>
      refine (L.call he ..).bind fun answer => ?_
      split
      · exact (L.accessGet he ..).bind fun v => (hv v).bind fun _ => ih
      · exact .pure _

theorem forEach (n : Nat) (collection : Value) {visit : Value → Run κ σ Unit}
    {visit' : Value → Run κ τ Unit} (hv : ∀ v, Agree R (visit v) (visit' v)) :
    Agree R (Iteration.forEach exec n collection visit)
      (Iteration.forEach exec' n collection visit') := by
  refine (L.iterator he ..).bind fun iterator => (L.accessGet he ..).bind fun method => ?_
  refine (L.viewHeap _).bind fun f => ?_
  cases f with
  | some f => exact L.visitAll he f iterator hv n
  | none => exact .fail _

/-! ## Spread items -/

theorem elementsFrom (source : Value) (n i : Nat) (read : List Value) :
    Agree R (Spread.elementsFrom exec source n i read)
      (Spread.elementsFrom exec' source n i read) := by
  induction n generalizing i read with
  | zero => exact .pure _
  | succ n ih => exact (L.accessGet he ..).bind fun v => ih ..

theorem expand (item : SpreadItem) :
    Agree R (Spread.expand exec item) (Spread.expand exec' item) := by
  unfold Spread.expand
  split
  · exact .pure _
  · exact .pure _
  · exact .pure _
  · exact (L.accessGet he ..).bind fun length => L.elementsFrom he ..
  · exact .fail _

theorem arguments (items : List SpreadItem) :
    Agree R (Spread.arguments exec items) (Spread.arguments exec' items) :=
  .map _ (.mapM items fun item => L.expand he item)

theorem spreadConstruct (f : ObjectId) (items : List SpreadItem) :
    Agree R (Spread.construct exec f items) (Spread.construct exec' f items) :=
  (L.arguments he items).bind fun _ => L.construct he ..

/-! ## Realms -/

omit he in
theorem setRandomized (on : Bool) :
    Agree R (Realm.setRandomized on) (Realm.setRandomized on) := by
  unfold Realm.setRandomized
  refine .modifyGet fun {v w} h => ?_
  rw [← L.names h]
  exact ⟨rfl, L.switch on h⟩

omit he in
theorem createRealm (configuration : Configuration) :
    Agree R (Realm.create configuration) (Realm.create configuration) := by
  refine (L.setRandomized _).bind fun _ => (L.ordinary none).bind fun prototype => ?_
  dsimp only
  split
  · exact (L.install _).bind fun _ => .pure _
  · exact .pure _

theorem realmSpreadArray (realm : Realm) (items : List SpreadItem) :
    Agree R (realm.spreadArray exec items) (realm.spreadArray exec' items) :=
  (L.arguments he items).bind fun elements => L.array elements _

end

end PlainLockstep

/-! ## Iterators -/

/-- An iterator with its functions. -/
def Object.iterator (names : WellKnownNames) (current moveNext : ObjectId) : Object κ :=
  { Object.make .ordinary none with
    table := .ofList [(.current, ⟨.accessor (some current) none, false, true⟩),
      (.moveNext, .hidden (.object moveNext)),
      (.name names.generator, .hidden (.boolean true))] }

theorem Object.made_iterator (names : WellKnownNames) (current moveNext : ObjectId) :
    (Object.iterator names current moveNext : Object κ).Made := by
  refine .withTable (by nofun) _ ?_
  simp [Key.current, Key.moveNext, Property.hidden]

theorem Object.eq_of_holds_iterator {names : WellKnownNames} {current moveNext f : ObjectId}
    (h : (Object.iterator names current moveNext : Object κ).Holds f) : f = current := by
  obtain ⟨k, p, hp, held⟩ := h
  have listed := Table.mem_of_find?_ofList hp
  simp only [List.mem_cons, List.not_mem_nil, Prod.mk.injEq, or_false] at listed
  rcases listed with ⟨-, rfl⟩ | ⟨-, rfl⟩ | ⟨-, rfl⟩
  · simpa [Slot.functions] using held
  · cases held
  · cases held

/-- An iterator is made in lockstep if its position may be added, and objects that go by positions
that there are. -/
theorem PlainLockstep.makeIteratorBy (L : PlainLockstep S R)
    (add : ∀ {v w}, R v w → R v.addCursor.2 w.addCursor.2)
    (allocate : ∀ {v w} (object : Object κ), R v w → object.Made →
      (∀ {f}, object.Holds f → (v.heap.get f).isCallable = true) →
      (∀ {c}, object.cursor? = some c → c.index < v.cursors.size) →
      R { v with heap := (v.heap.allocate object).2 } { w with heap := (v.heap.allocate object).2 })
    (source : Value) :
    Agree R (Iteration.makeIterator source) (Iteration.makeIterator source) := by
  intro v ⟨heap, cursors, deferreds, names, wellKnown, client⟩ h
  obtain rfl : v.heap = heap := L.heap h
  obtain rfl : v.cursors = cursors := L.cursors h
  obtain rfl : v.wellKnown = wellKnown := L.wellKnown h
  let cursor : CursorId := ⟨v.cursors.size⟩
  let current : Object κ := .make (.function "current" (.current cursor source)) none
  let moveNext : Object κ := .make (.function "moveNext" (.moveNext cursor source)) none
  let h₁ := (v.heap.allocate current).2
  let h₂ := (h₁.allocate moveNext).2
  have there {c : CursorId} (hc : some cursor = some c) :
      c.index < (v.cursors.push .start).size := by
    cases hc
    simp [cursor]
  have callable : (h₂.get v.heap.next).isCallable = true := by
    rw [Heap.get_allocate_of_contains _ (Heap.contains_allocate_next ..), Heap.get_allocate_next]
    rfl
  have first := allocate current (add h) (.make (by nofun) _)
    (fun held => (Object.not_holds_make _ _ _ held).elim) there
  have second := allocate moveNext first (.make (by nofun) _)
    (fun held => (Object.not_holds_make _ _ _ held).elim) there
  have third := allocate _ second (Object.made_iterator v.wellKnown v.heap.next h₁.next)
    (fun held => Object.eq_of_holds_iterator held ▸ callable) nofun
  exact .value third

namespace QuietLockstep

variable (L : QuietLockstep S R) {exec : Exec κ σ} {exec' : Exec κ τ}
include L

theorem makeIterator (source : Value) :
    Agree R (Iteration.makeIterator source) (Iteration.makeIterator source) := by
  refine L.makeIteratorBy (fun {v w} h => ?_)
    (fun _ h made functions _ => L.step h (L.covers.allocate made functions)) source
  rw [World.addCursor, World.addCursor, L.cursors h]
  exact L.move _ h

theorem setCursor (cursor : CursorId) (c : Cursor) :
    Agree R (Run.modify (·.setCursor cursor c)) (Run.modify (·.setCursor cursor c)) := by
  refine .modify fun {v w} h => ?_
  simp only [World.setCursor, L.cursors h]
  exact L.move _ h

theorem moveNext (he : Lockstep.ExecAgree R exec exec') (cursor : CursorId) (source : Value) :
    Agree R (Iteration.moveNext exec cursor source) (Iteration.moveNext exec' cursor source) := by
  refine (L.accessGet he ..).bind fun length => (L.viewCursor cursor).bind fun c => ?_
  dsimp only
  split
  · exact (L.setCursor ..).bind fun _ => .pure _
  · exact (L.setCursor ..).bind fun _ => .pure _

end QuietLockstep

end Prototypal
