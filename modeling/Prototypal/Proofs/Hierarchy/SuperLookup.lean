import Prototypal.Proofs.Chains

/-!
# Members from above

Inherited members are looked up from one level above the prototype of a class.  No chain comes back
to where it began, so the own properties of that prototype have no say in what is found, and neither
have those of an instance.
-/

namespace Prototypal

variable {κ σ : Type}

/-! ## Other own properties -/

/-- An object is another one but for its own properties. -/
structure Object.Redressed (o o' : Object κ) : Prop where
  /-- The elements and the length of an array are own properties of it. -/
  kind : o'.kind = o.kind ∨ ∃ old new, o.kind = .array old ∧ o'.kind = .array new
  prototype : o'.prototype = o.prototype
  extensible : o'.extensible = o.extensible

namespace Object.Redressed

variable {o o' : Object κ}

theorem refl (o : Object κ) : o.Redressed o := ⟨.inl rfl, rfl, rfl⟩

theorem withTable (o : Object κ) (table : Table) : o.Redressed { o with table } :=
  ⟨.inl rfl, rfl, rfl⟩

theorem body? (r : o.Redressed o') : o'.body? = o.body? := by
  rcases r.kind with kind | ⟨old, new, kind, kind'⟩
  · simp only [Object.body?, kind]
  · simp only [Object.body?, kind, kind']

end Object.Redressed

/-- A heap is another one but for the own properties of some objects. -/
structure Heap.Redressed (S : ObjectId → Prop) (h h' : Heap κ) : Prop where
  size : h'.size = h.size
  object {o : ObjectId} : S o → (h.get o).Redressed (h'.get o)
  others {o : ObjectId} : ¬ S o → h'.get o = h.get o

namespace Heap.Redressed

variable {S : ObjectId → Prop} {h h' : Heap κ}

theorem refl (S : ObjectId → Prop) (h : Heap κ) : h.Redressed S h :=
  ⟨rfl, fun _ => .refl _, fun _ => rfl⟩

theorem get (r : h.Redressed S h') (o : ObjectId) : (h.get o).Redressed (h'.get o) := by
  by_cases ho : S o
  · exact r.object ho
  · exact r.others ho ▸ .refl _

theorem set {o : ObjectId} {object : Object κ} (r : h.Redressed S h') (ho : S o)
    (ro : (h.get o).Redressed object) : h.Redressed S (h'.set o object) where
  size := (size_set ..).trans r.size
  object {q} hq := by
    rcases get_set_cases h' o q object with same | ⟨rfl, stored⟩
    · exact same ▸ r.object hq
    · rw [stored]
      exact ro
  others {q} hq := by
    have ne : q ≠ o := fun e => hq (e ▸ ho)
    rw [get_set_of_ne _ _ ne, r.others hq]

/-- What can be called is no matter of own properties. -/
theorem callable? (r : h.Redressed S h') (v : Value) : h'.callable? v = h.callable? v := by
  simp only [Heap.callable?, Object.isCallable, (r.get _).body?]

/-- Lookup is as before where the chain leads past the objects that have other properties. -/
theorem findSlot (r : h.Redressed S h') {o : ObjectId} (apart : ∀ q ∈ h.chain o, ¬ S q) (k : Key) :
    h'.findSlot o k = h.findSlot o k := by
  rw [Heap.findSlot, Heap.findSlot, find, find, r.size]
  refine congrArg _ (findUpTo_congr fun q hq => ?_)
  rw [r.others (apart q hq)]
  exact ⟨rfl, rfl⟩

end Heap.Redressed

/-! ## What is found above -/

namespace Class

variable {exec : Exec κ σ} {w : World κ σ} {self : Value} {constructor prototype : ObjectId}

/-- The slot of the nearest property above the prototype of a class. -/
def slotAbove (h : Heap κ) (prototype : ObjectId) (k : Key) : Option Slot :=
  (h.get prototype).prototype.bind (h.findSlot · k)

/-- The objects whose own properties have no say in what a class inherits: its prototype, and an
instance that is neither above it nor the constructor. -/
inductive Unasked (h : Heap κ) (self : Value) (constructor prototype : ObjectId) : ObjectId → Prop
  | prototype : Unasked h self constructor prototype prototype
  | self {o : ObjectId} (same : self = .object o) (apart : ¬ h.Ascends prototype o)
      (other : o ≠ constructor) : Unasked h self constructor prototype o

/-- Nothing above the prototype is one of these objects. -/
theorem not_unasked_of_mem {h : Heap κ} (g : h.Grounded) {above q : ObjectId}
    (inherits : (h.get prototype).prototype = some above) (hq : q ∈ h.chain above) :
    ¬ Unasked h self constructor prototype q := by
  intro unasked
  cases unasked with
  | self _ apart => exact apart (.head inherits (g.mem_chain_iff.1 hq))
  | prototype =>
      have nodup : (h.chain prototype).Nodup := g.nodup_chainUpTo _ prototype
      rw [g.chain_eq, inherits] at nodup
      exact (List.nodup_cons.1 nodup).1 hq

variable (self) in
/-- What is found above depends on nothing else than what the chain above has. -/
theorem inheritedSlot_of_redressed (g : w.heap.Grounded)
    (own : ((w.heap.get constructor).getOwn .prototype).bind Property.value? =
      some (.object prototype))
    (apart : prototype ≠ constructor) {h' : Heap κ}
    (r : w.heap.Redressed (Unasked w.heap self constructor prototype) h') (k : Key) :
    inheritedSlot exec constructor k { w with heap := h' } =
      .value (slotAbove w.heap prototype k) { w with heap := h' } := by
  have asked : ¬ Unasked w.heap self constructor prototype constructor := fun unasked => by
    cases unasked with
    | prototype => exact apart rfl
    | self _ _ other => exact other rfl
  have own' : ((h'.get constructor).getOwn .prototype).bind Property.value? =
      some (.object prototype) := by
    rw [r.others asked]
    exact own
  have above : slotAbove h' prototype k = slotAbove w.heap prototype k := by
    unfold slotAbove
    rw [(r.get prototype).prototype]
    cases inherits : (w.heap.get prototype).prototype with
    | none => rfl
    | some p => exact r.findSlot (fun q hq => not_unasked_of_mem g inherits hq) k
  unfold inheritedSlot
  rw [Run.bind_of_value (Member.get_of_own (w := { w with heap := h' }) own' _), ← above]
  rfl

/-! ## What becomes of it -/

/-- What the slot that was found, and the function that its value is, make of an inherited member:
what is read, which function is called first, with which `this` and which arguments, and what fails
before anything is called. -/
def Dispatches (exec : Exec κ σ) (self : Value) (constructor : ObjectId) (k : Key)
    (slot : Option Slot) (method : Option ObjectId) (w : World κ σ) : Prop :=
  superGet exec self constructor k w =
    (match slot with
    | some (.data v _) => .value v w
    | some (.accessor (some getter) _) => call exec getter self [] w
    | some (.accessor none _) | none => .value .undefined w) ∧
  (∀ arguments, superCall exec self constructor k arguments w =
    match slot, method with
    | some (.data _ _), some f => call exec f self arguments w
    | some (.accessor (some getter) _), _ =>
      match call exec getter self [] w with
      | .value v w' =>
        match w'.heap.callable? v with
        | some f => call exec f self arguments w'
        | none => .fault (.superNotCallable k) w'
      | .fault e w' => .fault e w'
      | .exhausted => .exhausted
    | _, _ => .fault (.noSuperMethod k) w) ∧
  ∀ v, superSet exec self constructor k v w =
    match slot with
    | some (.accessor _ (some setter)) => (discard <| call exec setter self [v] : Run κ σ Unit) w
    | _ => .fault (.noSuperSetter k) w

/-- The function that the value of a slot is. -/
def method? (h : Heap κ) : Option Slot → Option ObjectId
  | some (.data v _) => h.callable? v
  | _ => none

/-- Why an inherited member is not called. -/
def refusal (k : Key) : Option Slot → Fault
  | some (.accessor (some _) _) => .superNotCallable k
  | _ => .noSuperMethod k

variable {k : Key} {slot : Option Slot}

variable (self) in
theorem superGet_of_inheritedSlot : inheritedSlot exec constructor k w = .value slot w →
    superGet exec self constructor k w =
      match slot with
      | some (.data v _) => .value v w
      | some (.accessor (some getter) _) => call exec getter self [] w
      | some (.accessor none _) | none => .value .undefined w := by
  intro found
  unfold superGet
  rw [Run.bind_of_value found]
  match slot with
  | some (.data v _) => rfl
  | some (.accessor (some getter) _) => rfl
  | some (.accessor none _) => rfl
  | none => rfl

/-- What is called is what is read, if it can be called. -/
theorem superCall_eq_superGet (found : inheritedSlot exec constructor k w = .value slot w)
    (arguments : List Value) :
    superCall exec self constructor k arguments w =
      match superGet exec self constructor k w with
      | .value v w' =>
        match w'.heap.callable? v with
        | some f => call exec f self arguments w'
        | none => .fault (refusal k slot) w'
      | .fault e w' => .fault e w'
      | .exhausted => .exhausted := by
  rw [superGet_of_inheritedSlot self found]
  unfold superCall
  rw [Run.bind_of_value found]
  match slot with
  | some (.data v _) =>
    dsimp only
    rw [Run.viewHeap_bind]
    cases w.heap.callable? v <;> rfl
  | some (.accessor (some getter) _) =>
    dsimp only
    rw [Run.bind_apply]
    cases call exec getter self [] w with
    | value v w' =>
        dsimp only
        rw [Run.viewHeap_bind]
        cases w'.heap.callable? v <;> rfl
    | fault e w' => rfl
    | exhausted => rfl
  | some (.accessor none _) => rfl
  | none => rfl

theorem dispatches_of_inheritedSlot (found : inheritedSlot exec constructor k w = .value slot w) :
    Dispatches exec self constructor k slot (method? w.heap slot) w := by
  refine ⟨superGet_of_inheritedSlot self found, fun arguments => ?_, fun v => ?_⟩
  · rw [superCall_eq_superGet found, superGet_of_inheritedSlot self found]
    match slot with
    | some (.data v _) =>
      dsimp only [method?]
      cases w.heap.callable? v <;> rfl
    | some (.accessor (some getter) _) => rfl
    | some (.accessor none _) => rfl
    | none => rfl
  · unfold superSet
    rw [Run.bind_of_value found]
    match slot with
    | some (.data _ _) => rfl
    | some (.accessor _ (some setter)) => rfl
    | some (.accessor _ none) => rfl
    | none => rfl

end Class

/-- Whatever own properties the prototype of a class gets, and an instance of it, reading, calling
and assigning an inherited member come to the same: the slot above the prototype decides what is
read, what is called first, and what fails with an error of dispatch.  A call in a world is a read
in that world and a call of what was read with the given arguments; it is refused where that cannot
be called, and a fault of the read is its fault. -/
theorem World.Reached.super_looks_above {w : World κ σ} (hw : w.Reached)
    {constructor prototype : ObjectId}
    (own : ((w.heap.get constructor).getOwn .prototype).bind Property.value? =
      some (.object prototype))
    (apart : prototype ≠ constructor) (exec : Exec κ σ) (self : Value) (k : Key) :
    let slot := Class.slotAbove w.heap prototype k
    let unasked := Class.Unasked w.heap self constructor prototype
    w.heap.Redressed unasked w.heap ∧
    (∀ h', w.heap.Redressed unasked h' →
      let u := { w with heap := h' }
      (∀ f, (u.heap.get f).body? = (w.heap.get f).body?) ∧
      Class.Dispatches exec self constructor k slot (Class.method? w.heap slot) u ∧
      ∀ arguments, Class.superCall exec self constructor k arguments u =
        match Class.superGet exec self constructor k u with
        | .value v u' =>
          match u'.heap.callable? v with
          | some f => call exec f self arguments u'
          | none => .fault (Class.refusal k slot) u'
        | .fault e u' => .fault e u'
        | .exhausted => .exhausted) ∧
    (Fault.noSuperMethod k).kind = .dispatch ∧ (Fault.noSuperSetter k).kind = .dispatch ∧
    (Fault.superNotCallable k).kind = .type := by
  intro slot unasked
  refine ⟨.refl .., fun h' r => ?_, rfl, rfl, rfl⟩
  have found : Class.inheritedSlot exec constructor k { w with heap := h' } = _ :=
    Class.inheritedSlot_of_redressed self hw.grounded own apart r k
  have method : Class.method? h' slot = Class.method? w.heap slot := by
    match slot with
    | some (.data v _) => exact r.callable? v
    | some (.accessor _ _) => rfl
    | none => rfl
  exact ⟨fun f => (r.get f).body?, method ▸ Class.dispatches_of_inheritedSlot found,
    Class.superCall_eq_superGet found⟩

/-- A member that a class, its instance and the class above have: emptying the prototype of the
class and giving the instance another member changes nothing for a call from above. -/
theorem World.Reached.super_looks_above_override :
    let k := Key.text "greet"
    let exec : Exec Unit Unit := fun _ _ => pure (.string "above")
    ∃ w u : World Unit Unit, w.Reached ∧
      ((w.heap.get ⟨6⟩).getOwn .prototype).bind Property.value? = some (.object ⟨8⟩) ∧
      w.heap.Redressed (Class.Unasked w.heap (.object ⟨9⟩) ⟨6⟩ ⟨8⟩) u.heap ∧
      ((w.heap.get ⟨8⟩).getOwn k).isSome ∧ ((u.heap.get ⟨8⟩).getOwn k).isNone ∧
      ((w.heap.get ⟨9⟩).getOwn k).isNone ∧ ((u.heap.get ⟨9⟩).getOwn k).isSome ∧
      Class.superCall exec (.object ⟨9⟩) ⟨6⟩ k [] w = .value (.string "above") w ∧
      Class.superCall exec (.object ⟨9⟩) ⟨6⟩ k [] u = .value (.string "above") u := by
  intro k exec
  obtain ⟨w, reached, facts⟩ := World.exists_reached (fun _ _ => .done (.ok .null)) 0
    (.ask (.newFunction "greet" ()) fun _ => .ask (.newConstructor "A" ()) fun _ =>
      .ask (.newObject none) fun _ => .ask (.define ⟨3⟩ k (.data (.object ⟨0⟩))) fun _ =>
      .ask (.createClass ⟨2⟩ ⟨3⟩ .null) fun _ => .ask (.newConstructor "B" ()) fun _ =>
      .ask (.newObject none) fun _ => .ask (.define ⟨7⟩ k (.data .null)) fun _ =>
      .ask (.createClass ⟨6⟩ ⟨7⟩ (.object ⟨2⟩)) fun _ =>
      .ask (.newObject (some ⟨8⟩)) fun _ => .ask .newKey fun _ => .done (.ok .null))
    (.initial id) ()
    (fun w : World Unit Unit => (((w.heap.get ⟨6⟩).getOwn .prototype).bind Property.value?,
      w.heap.chain ⟨8⟩, Class.slotAbove w.heap ⟨8⟩ k,
      [w.heap.contains ⟨9⟩, ((w.heap.get ⟨8⟩).getOwn k).isSome,
        ((w.heap.get ⟨9⟩).getOwn k).isNone, (w.heap.get ⟨0⟩).isCallable]))
    (show _ = some (some (.object ⟨8⟩), [⟨8⟩, ⟨4⟩], some (.data (.object ⟨0⟩) true),
      [true, true, true, true]) by decide +kernel)
  simp only [Prod.mk.injEq, List.cons.injEq, and_true] at facts
  obtain ⟨own, chain, above, made, present, absent, callable⟩ := facts
  have apart : ¬ w.heap.Ascends ⟨8⟩ ⟨9⟩ := by
    rw [← reached.grounded.mem_chain_iff, chain]
    decide
  let unasked := Class.Unasked w.heap (.object ⟨9⟩) ⟨6⟩ ⟨8⟩
  let emptied := w.heap.set ⟨8⟩ { w.heap.get ⟨8⟩ with table := .empty }
  let h' := emptied.set ⟨9⟩ ((w.heap.get ⟨9⟩).put k (.data .null))
  have first : w.heap.Redressed unasked emptied :=
    (Heap.Redressed.refl unasked w.heap).set .prototype (.withTable _ _)
  have redressed : w.heap.Redressed unasked h' :=
    first.set (.self rfl apart (by decide)) (.withTable _ _)
  obtain ⟨same, looks, -⟩ := reached.super_looks_above own (by decide) exec (.object ⟨9⟩) k
  have calls (h' : Heap Unit) (r : w.heap.Redressed unasked h') :
      Class.superCall exec (.object ⟨9⟩) ⟨6⟩ k [] { w with heap := h' } =
        .value (.string "above") { w with heap := h' } := by
    obtain ⟨bodies, ⟨-, called, -⟩, -⟩ := looks h' r
    have method : w.heap.callable? (.object ⟨0⟩) = some ⟨0⟩ := Option.filter_some_pos callable
    obtain ⟨body, hb⟩ := Option.isSome_iff_exists.1 callable
    rw [called, above]
    dsimp only [Class.method?]
    rw [method]
    dsimp only
    rw [call, Run.viewHeap_bind, bodies, hb]
    rfl
  have entry (o : Object Unit) : o.place k = .entry :=
    Object.place_eq_entry_iff.2 fun _ _ => by decide
  have held : w.heap.contains ⟨8⟩ = true :=
    Heap.contains_of_has (Option.isSome_iff_exists.2 ⟨_, Heap.find_of_own
      (Option.some_get present).symm⟩)
  have bare : h'.get ⟨8⟩ = { w.heap.get ⟨8⟩ with table := .empty } :=
    (Heap.get_set_of_ne _ _ (by decide)).trans (Heap.get_set_self _ held)
  have given : h'.get ⟨9⟩ = (w.heap.get ⟨9⟩).put k (.data .null) :=
    Heap.get_set_self _ ((Heap.contains_set ..).trans made)
  refine ⟨w, { w with heap := h' }, reached, own, redressed, present, ?_, absent, ?_,
    calls w.heap same, calls h' redressed⟩
  · dsimp only
    rw [bare, Object.getOwn, entry]
    exact Option.isNone_iff_eq_none.2 (Table.find?_empty k)
  · dsimp only
    rw [given, Object.getOwn_put_self (entry _)]
    rfl

end Prototypal
