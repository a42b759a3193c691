import Prototypal.Machine
import Prototypal.Proofs.Agreement
import Prototypal.Proofs.Blindness.Alike

/-!
# Runs that are blind to hidden keys

A run is blind if from alike worlds it has the same end, again in alike worlds, and leaves alone
what is hidden.  Access under a key that is not hidden is blind as far as the user code is that it
calls.
-/

namespace Prototypal

variable {κ σ α β : Type} {hidden : Key → Bool}

/-- Worlds that are equal but for properties under hidden keys. -/
structure World.Alike (hidden : Key → Bool) (v w : World κ σ) : Prop where
  heap : v.heap.Alike hidden w.heap
  cursors : v.cursors = w.cursors
  deferreds : v.deferreds = w.deferreds
  names : v.names = w.names
  wellKnown : v.wellKnown = w.wellKnown
  client : v.client = w.client

theorem World.Alike.setHeap {v w : World κ σ} (a : v.Alike hidden w) {h h' : Heap κ}
    (ah : h.Alike hidden h') :
    World.Alike hidden { v with heap := h } { w with heap := h' } :=
  { a with heap := ah }

/-- From a world and one that is alike the run has the same end, in worlds that are alike, and in
neither it makes, changes or removes a property under a hidden key. -/
def Run.BlindAt (hidden : Key → Bool) (x : Run κ σ α) (v : World κ σ) : Prop :=
  ∀ w, v.Alike hidden w →
    (x v).Agree (fun v' w' => v'.Alike hidden w' ∧
      v.heap.Untouched hidden v'.heap ∧ w.heap.Untouched hidden w'.heap) (x w)

namespace Run.BlindAt

variable {x : Run κ σ α} {v : World κ σ}

protected theorem pure (a : α) : (pure a : Run κ σ α).BlindAt hidden v :=
  fun _ h => .value ⟨h, .refl _, .refl _⟩

protected theorem fail (f : Fault) : (fail f : Run κ σ α).BlindAt hidden v :=
  fun _ h => .fault ⟨h, .refl _, .refl _⟩

protected theorem bind {f : α → Run κ σ β} (hx : x.BlindAt hidden v)
    (hf : ∀ a v', x v = .value a v' → (f a).BlindAt hidden v') : (x >>= f).BlindAt hidden v := by
  intro w h
  have hx := hx w h
  rw [bind_apply, bind_apply]
  generalize x w = y at hx
  cases hv : x v with
  | value a v' =>
      rw [hv] at hx
      cases hx with
      | value hx =>
          obtain ⟨alike, left, right⟩ := hx
          refine (hf a v' hv _ alike).mono fun ⟨alike', left', right'⟩ => ?_
          exact ⟨alike', left.trans left', right.trans right'⟩
  | fault f v' =>
      rw [hv] at hx
      cases hx with
      | fault hx => exact .fault hx
  | exhausted =>
      rw [hv] at hx
      cases hx
      exact .exhausted

protected theorem view {f : World κ σ → β} {g : β → Run κ σ α}
    (hf : ∀ w, v.Alike hidden w → f v = f w) (hg : (g (f v)).BlindAt hidden v) :
    (view f >>= g).BlindAt hidden v := by
  intro w h
  rw [view_bind, view_bind, ← hf w h]
  exact hg w h

protected theorem viewHeap {f : Heap κ → β} {g : β → Run κ σ α}
    (hf : ∀ h, v.heap.Alike hidden h → f v.heap = f h) (hg : (g (f v.heap)).BlindAt hidden v) :
    (viewHeap f >>= g).BlindAt hidden v :=
  .view (fun w h => hf w.heap h.heap) hg

theorem look {f : Heap κ → β} (hf : ∀ h, v.heap.Alike hidden h → f v.heap = f h) :
    (Run.viewHeap f : Run κ σ β).BlindAt hidden v := by
  rw [← bind_pure (Run.viewHeap f)]
  exact .viewHeap hf (.pure _)

protected theorem change {o : ObjectId} {f : Object κ → Except Fault (Object κ)}
    (hf : Object.Blindly hidden f) : (change o f : Run κ σ Unit).BlindAt hidden v := by
  intro w h
  rcases hf (h.heap.get o) with ⟨e, he, he'⟩ | ⟨a, a', ha, ha', alike, left, right⟩
  · rw [change_of_error he, change_of_error he']
    exact .fault ⟨h, .refl _, .refl _⟩
  · rw [change_of_ok ha, change_of_ok ha']
    exact .value ⟨h.setHeap (h.heap.set alike), .set left, .set right⟩

end Run.BlindAt

/-! ## Reading and writing through objects -/

section
variable {exec : Exec κ σ} {v : World κ σ} {o : ObjectId} {k : Key} {x receiver : Value}

/-- A call is blind if the body that it enters is. -/
theorem blindAt_call {f : ObjectId} {this : Value} {arguments : List Value}
    (hb : ∀ body, (v.heap.get f).body? = some body →
      (exec body (.call this arguments)).BlindAt hidden v) :
    (call exec f this arguments).BlindAt hidden v := by
  intro w h
  -- Only the body matters of the object that is looked at.
  have same := (h.heap.get f).body?
  unfold call
  rw [Run.viewHeap_bind, Run.viewHeap_bind, ← same]
  cases hf : (v.heap.get f).body? with
  | some body => exact hb body hf w h
  | none => exact Run.BlindAt.fail _ w h

theorem blindAt_get (hk : hidden k = false)
    (hg : ∀ getter setter, v.heap.findSlot o k = some (.accessor (some getter) setter) →
      (call exec getter receiver []).BlindAt hidden v) :
    (Member.get exec o k receiver).BlindAt hidden v := by
  refine .viewHeap (fun h a => a.findSlot hk o) ?_
  match found : v.heap.findSlot o k with
  | some (.data _ _) => exact .pure _
  | some (.accessor (some getter) setter) => exact hg getter setter found
  | some (.accessor none _) => exact .pure _
  | none => exact .pure _

theorem blindAt_store (hh : Key.Hideable hidden) (hk : hidden k = false) :
    (Member.store receiver k x : Run κ σ Unit).BlindAt hidden v := by
  unfold Member.store
  split
  · next target =>
    intro w h
    -- Only the slot matters of the object that is looked at.
    have same := (h.heap.get target).getOwn hk
    rw [Run.viewHeap_bind, Run.viewHeap_bind, ← same]
    cases (v.heap.get target).getOwn k with
    | none => exact Run.BlindAt.change (Object.blindly_define hh hk _) w h
    | some p =>
        obtain ⟨slot, enumerable, configurable⟩ := p
        cases slot with
        | data y writable =>
            cases writable with
            | true => exact Run.BlindAt.change (Object.blindly_define hh hk _) w h
            | false => exact Run.BlindAt.fail _ w h
        | accessor => exact Run.BlindAt.fail _ w h
  · exact .fail _

theorem blindAt_set (hh : Key.Hideable hidden) (hk : hidden k = false)
    (hs : ∀ getter setter, v.heap.findSlot o k = some (.accessor getter (some setter)) →
      (call exec setter receiver [x]).BlindAt hidden v) :
    (Member.set exec o k x receiver).BlindAt hidden v := by
  refine .viewHeap (fun h a => a.findSlot hk o) ?_
  match found : v.heap.findSlot o k with
  | some (.accessor getter (some setter)) =>
      exact .bind (hs getter setter found) fun _ _ _ => .pure _
  | some (.accessor _ none) => exact .fail _
  | some (.data _ false) => exact .fail _
  | some (.data _ true) => exact blindAt_store hh hk
  | none => exact blindAt_store hh hk

end

/-! ## Access -/

/-- The user code that a read calls is blind. -/
def Access.ReadsBlindly (hidden : Key → Bool) (exec : Exec κ σ) (owner : Value) (k : Key)
    (v : World κ σ) : Prop :=
  k.isReserved = false → ∀ o getter setter, owner = .object o →
    v.heap.findSlot o k = some (.accessor (some getter) setter) →
    (call exec getter owner []).BlindAt hidden v

/-- The user code that an assignment calls is blind. -/
def Access.WritesBlindly (hidden : Key → Bool) (exec : Exec κ σ) (owner : Value) (k : Key)
    (x : Value) (v : World κ σ) : Prop :=
  k.isReserved = false → ∀ o getter setter, owner = .object o →
    v.heap.findSlot o k = some (.accessor getter (some setter)) →
    (call exec setter owner [x]).BlindAt hidden v

/-- The user code that takes over a computed access, or is asked for what does, is blind. -/
def ComputedAccess.TrapsBlindly (hidden : Key → Bool) (exec : Exec κ σ) (owner : Value)
    (name : PrivateName) (arguments : List Value) (v : World κ σ) : Prop :=
  Access.ReadsBlindly hidden exec owner (.name name) v ∧
    ∀ f v', trap exec owner name v = .value (some f) v' →
      (call exec f owner arguments).BlindAt hidden v'

section
variable {exec : Exec κ σ} {v : World κ σ} {owner key x : Value} {k : Key} {name : PrivateName}
  {arguments : List Value}

theorem blindAt_accessGet (hk : k.isReserved = false → hidden k = false)
    (hr : Access.ReadsBlindly hidden exec owner k v) :
    (Access.get exec owner k).BlindAt hidden v := by
  unfold Access.get
  split
  · exact .pure _
  · next unreserved =>
    have unreserved := Bool.eq_false_iff.2 unreserved
    split
    · next o =>
      exact blindAt_get (hk unreserved) fun getter setter => hr unreserved o getter setter rfl
    · exact .fail _
    · exact .fail _
    · exact .pure _
    · exact .pure _

theorem blindAt_accessSet (hh : Key.Hideable hidden)
    (hk : k.isReserved = false → hidden k = false)
    (hw : Access.WritesBlindly hidden exec owner k x v) :
    (Access.set exec owner k x).BlindAt hidden v := by
  unfold Access.set
  split
  · exact .fail _
  · next unreserved =>
    have unreserved := Bool.eq_false_iff.2 unreserved
    split
    · next o =>
      refine .viewHeap (fun h a => a.has (hk unreserved) o) ?_
      split
      · exact .change (Object.blindly_define hh (hk unreserved) _)
      · exact blindAt_set hh (hk unreserved) fun getter setter =>
          hw unreserved o getter setter rfl
    · exact .fail _

theorem blindAt_accessDelete (hh : Key.Hideable hidden)
    (hk : k.isReserved = false → hidden k = false) :
    (Access.delete owner k : Run κ σ Bool).BlindAt hidden v := by
  unfold Access.delete
  split
  · exact .pure _
  · next unreserved =>
    have unreserved := Bool.eq_false_iff.2 unreserved
    split
    · exact .bind (.change (Object.blindly_delete hh (hk unreserved))) fun _ _ _ => .pure _
    · exact .fail _
    · exact .fail _
    · exact .pure _

theorem blindAt_accessDefine (hh : Key.Hideable hidden)
    (hk : k.isReserved = false → hidden k = false) (d : Descriptor) :
    (Access.define owner k d : Run κ σ Unit).BlindAt hidden v := by
  unfold Access.define
  split
  · split
    · exact .fail _
    · next unreserved =>
      have unreserved := Bool.eq_false_iff.2 unreserved
      split
      · exact .change (Object.blindly_define hh (hk unreserved) _)
      · exact .change (Object.blindly_define hh (hk unreserved) _)
  · exact .fail _

theorem blindAt_trap (hn : hidden (.name name) = false)
    (ht : ComputedAccess.TrapsBlindly hidden exec owner name arguments v) :
    (ComputedAccess.trap exec owner name).BlindAt hidden v := by
  unfold ComputedAccess.trap
  split
  · next o =>
    refine .viewHeap (fun h a => a.has hn o) ?_
    split
    · refine .bind (blindAt_get hn fun getter setter => ht.1 rfl o getter setter rfl) ?_
      exact fun handler v' _ => .look fun h a => a.callable? handler
    · exact .pure _
  · exact .pure _

/-- A computed access is blind if what takes it over and what it is otherwise are. -/
theorem blindAt_trapped (name : WellKnownNames → PrivateName)
    (hn : hidden (.name (name v.wellKnown)) = false)
    (ht : ComputedAccess.TrapsBlindly hidden exec owner (name v.wellKnown) arguments v)
    {taken : ObjectId → Run κ σ α} {otherwise : Key → Run κ σ α}
    (hf : ∀ f v', (call exec f owner arguments).BlindAt hidden v' → (taken f).BlindAt hidden v')
    (ho : ∀ v', ComputedAccess.trap exec owner (name v.wellKnown) v = .value none v' →
      (otherwise (v'.heap.key key)).BlindAt hidden v') :
    (do
      match ← ComputedAccess.trap exec owner (name (← Run.view (·.wellKnown))) with
      | some f => taken f
      | none => otherwise (← Run.viewHeap (·.key key))).BlindAt hidden v := by
  refine .view (fun w a => a.wellKnown) (.bind (blindAt_trap hn ht) fun handler v' h => ?_)
  cases handler with
  | some f => exact hf f v' (ht.2 f v' h)
  | none => exact .viewHeap (fun h a => a.key key) (ho v' h)

end

/-! ## Requests -/

/-- Requests to the access layer. -/
def Request.isAccess : Request κ α → Bool
  | .accessGet _ _ | .accessSet _ _ _ | .accessDelete _ _ | .accessDefine _ _ _
  | .computedGet _ _ | .computedSet _ _ _ | .computedDelete _ _ => true
  | _ => false

/-- Questions to the access layer. -/
def Query.isAccess : Query α → Bool
  | .has _ _ | .hasOwn _ _ | .descriptor _ _ | .names _ | .hasComputed _ _ => true
  | _ => false

/-- The user code that a request to the access layer calls is blind. -/
def Request.CallsBlindly (hidden : Key → Bool) (exec : Exec κ σ) (v : World κ σ) :
    Request κ α → Prop
  | .accessGet owner k => Access.ReadsBlindly hidden exec owner k v
  | .accessSet owner k x => Access.WritesBlindly hidden exec owner k x v
  | .computedGet owner key =>
    ComputedAccess.TrapsBlindly hidden exec owner v.wellKnown.elementGet [key] v ∧
      ∀ v', ComputedAccess.trap exec owner v.wellKnown.elementGet v = .value none v' →
        Access.ReadsBlindly hidden exec owner (v'.heap.key key) v'
  | .computedSet owner key x =>
    ComputedAccess.TrapsBlindly hidden exec owner v.wellKnown.elementSet [key, x] v ∧
      ∀ v', ComputedAccess.trap exec owner v.wellKnown.elementSet v = .value none v' →
        Access.WritesBlindly hidden exec owner (v'.heap.key key) x v'
  | .computedDelete owner key =>
    ComputedAccess.TrapsBlindly hidden exec owner v.wellKnown.elementDelete [key] v
  | _ => True

end Prototypal
