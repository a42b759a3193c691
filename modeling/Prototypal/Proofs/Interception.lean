import Prototypal.Proofs.Chains

/-!
# Interception of computed access

A computed access first reads the nearest property under its name, which may run a getter.  If that
gives something that can be called, a call of it is all that happens; anything else, wherever it
stands on the chain, leaves the access to the key that the value stands for.
-/

namespace Prototypal

variable {κ σ α : Type}

/-- The nearest property under a key on the chain of an object, or none. -/
def Heap.Nearest (h : Heap κ) (o : ObjectId) (k : Key) (r : Option Property) : Prop :=
  h.Walk (fun q => (h.get q).getOwn k) (some o) r

namespace ComputedAccess

/-- What is consulted about an access to the owner, and how that ends. -/
inductive Consults (exec : Exec κ σ) (w : World κ σ) (name : PrivateName) :
    Value → Outcome (World κ σ) Value → Prop
  | primitive {owner} (noObject : owner.object? = none) :
      Consults exec w name owner (.value .undefined w)
  | absent {o} (walk : w.heap.Nearest o (.name name) none) :
      Consults exec w name (.object o) (.value .undefined w)
  | data {o p v writable} (walk : w.heap.Nearest o (.name name) (some p))
      (slot : p.slot = .data v writable) : Consults exec w name (.object o) (.value v w)
  | withoutGetter {o p setter} (walk : w.heap.Nearest o (.name name) (some p))
      (slot : p.slot = .accessor none setter) :
      Consults exec w name (.object o) (.value .undefined w)
  | getter {o p g setter} (walk : w.heap.Nearest o (.name name) (some p))
      (slot : p.slot = .accessor (some g) setter) :
      Consults exec w name (.object o) (call exec g (.object o) [] w)

/-- How an access proceeds from what was consulted: a handler is called and its result answered, or
the access is carried out as if there were no handlers, or what was consulted ends it. -/
inductive Proceeds (exec : Exec κ σ) (owner : Value) (arguments : List Value)
    (answer : Value → α) (access : Run κ σ α) :
    Outcome (World κ σ) Value → Outcome (World κ σ) α → Prop
  | handled {f body w'} (callable : (w'.heap.get f).body? = some body) :
      Proceeds exec owner arguments answer access (.value (.object f) w')
        ((answer <$> exec body (.call owner arguments)) w')
  | passed {v w'} (uncallable : ∀ f, v = .object f → (w'.heap.get f).body? = none) :
      Proceeds exec owner arguments answer access (.value v w') (access w')
  | fault {e w'} : Proceeds exec owner arguments answer access (.fault e w') (.fault e w')
  | exhausted : Proceeds exec owner arguments answer access .exhausted .exhausted

variable {exec : Exec κ σ} {w : World κ σ} {owner : Value} {name : PrivateName}

/-- Reads what is consulted. -/
def consult (exec : Exec κ σ) (owner : Value) (name : PrivateName) : Run κ σ Value :=
  match owner with
  | .object o => Member.get exec o (.name name) owner
  | _ => pure .undefined

theorem nearest_iff (g : w.heap.Grounded) {o : ObjectId} {k : Key} {r : Option Property} :
    w.heap.Nearest o k r ↔ w.heap.find o k = r := by
  rw [Heap.Nearest, g.walk_iff, Heap.find_eq_findSome?, Option.elim_some]

theorem consults_iff (g : w.heap.Grounded) {r : Outcome (World κ σ) Value} :
    Consults exec w name owner r ↔ consult exec owner name w = r := by
  constructor
  · intro h
    cases h with
    | primitive noObject => cases owner <;> first | rfl | cases noObject
    | absent walk =>
        have found := (nearest_iff g).1 walk
        simp [consult, Member.get, Run.viewHeap_bind, Heap.findSlot, found]
    | data walk slot | withoutGetter walk slot | getter walk slot =>
        have found := (nearest_iff g).1 walk
        simp [consult, Member.get, Run.viewHeap_bind, Heap.findSlot, found, slot]
  · rintro rfl
    cases owner with
    | object o =>
        simp only [consult, Member.get, Run.viewHeap_bind, Heap.findSlot]
        cases found : w.heap.find o (.name name) with
        | none => exact .absent ((nearest_iff g).2 found)
        | some p =>
            have walk := (nearest_iff g).2 found
            rw [Option.map_some]
            cases slot : p.slot with
            | data v writable => exact .data walk slot
            | accessor getter setter =>
                cases getter with
                | none => exact .withoutGetter walk slot
                | some getter => exact .getter walk slot
    | _ => exact .primitive rfl

/-- Nothing is a handler where nothing is found, so whether something is need not be asked first. -/
theorem trap_eq : trap exec owner name w =
    (consult exec owner name >>= fun v => Run.viewHeap (·.callable? v)) w := by
  cases owner with
  | object o =>
      change (Run.viewHeap _ >>= _) w = _
      rw [Run.viewHeap_bind, Heap.has]
      split
      · rfl
      · next missing =>
        have absent : w.heap.find o (.name name) = none := by simpa using missing
        have nothing : consult exec (.object o) name w = .value .undefined w := by
          simp [consult, Member.get, Run.viewHeap_bind, Heap.findSlot, absent]
        rw [Run.bind_of_value nothing]
        rfl
  | _ => rfl

/-- What was consulted tells how what follows the look for a handler ends. -/
theorem proceeds_trap {arguments : List Value} {answer : Value → α} {access : Run κ σ α}
    {next : Option ObjectId → Run κ σ α}
    (handled : ∀ {f}, next (some f) = answer <$> call exec f owner arguments)
    (passed : next none = access) :
    Proceeds exec owner arguments answer access (consult exec owner name w)
      ((trap exec owner name >>= next) w) := by
  rw [Run.bind_apply, trap_eq, Run.bind_apply]
  cases consult exec owner name w with
  | fault => exact .fault
  | exhausted => exact .exhausted
  | value v w' =>
      change Proceeds _ _ _ _ _ _ (next (w'.heap.callable? v) w')
      cases found : w'.heap.callable? v with
      | none =>
          rw [passed]
          refine .passed ?_
          rintro f rfl
          simpa [Heap.callable?, Value.object?, Object.isCallable] using found
      | some f =>
          obtain ⟨object, callable⟩ := Option.filter_eq_some_iff.1 found
          obtain ⟨body, hb⟩ := Option.isSome_iff_exists.1 callable
          cases v with
          | object o =>
              cases object
              have called : call exec f owner arguments w' =
                  exec body (.call owner arguments) w' := by
                rw [call, Run.viewHeap_bind, hb]
              rw [handled, Run.map_congr called]
              exact .handled hb
          | _ => cases object

end ComputedAccess

open ComputedAccess (Consults Proceeds consult consults_iff proceeds_trap trap)

/-- In every reached world, what is consulted about a computed access is the nearest property under
the well-known name of the access, read through its getter, and nothing else.  A function that this
gives takes the access over with one call, and everything else leaves it to access with the key of
the value, in the world after the getter; a computed assignment answers the value that it assigned.
Whether a property is there is never taken over. -/
theorem World.Reached.computed_access {w : World κ σ} (hw : w.Reached) (exec : Exec κ σ) (n : Nat)
    (owner key v : Value) :
    (∀ name, ∃! r, Consults exec w name owner r) ∧
    (∀ r, Consults exec w w.wellKnown.elementGet owner r →
      Proceeds exec owner [key] id
        (fun w' => perform exec n (.accessGet owner (w'.heap.key key)) w') r
        (perform exec n (.computedGet owner key) w)) ∧
    (∀ r, Consults exec w w.wellKnown.elementSet owner r →
      Proceeds exec owner [key, v] (fun _ => v)
        (fun w' => ((fun _ => v) <$> perform exec n (.accessSet owner (w'.heap.key key) v)) w') r
        (perform exec n (.computedSet owner key v) w)) ∧
    (∀ r, Consults exec w w.wellKnown.elementDelete owner r →
      Proceeds exec owner [key] Value.isTruthy
        (fun w' => perform exec n (.accessDelete owner (w'.heap.key key)) w') r
        (perform exec n (.computedDelete owner key) w)) ∧
    (∀ u w', perform exec n (.computedSet owner key v) w = .value u w' → u = v) ∧
    ∀ (perform' : {β : Type} → Request κ β → Run κ σ β) (next : Bool → Program κ σ),
      (Program.look (.hasComputed owner key) next).runWith perform' w =
        (next ((Query.has owner (w.heap.key key)).answer w)).runWith perform' w := by
  have consulted {name : PrivateName} {r : Outcome (World κ σ) Value} :
      Consults exec w name owner r ↔ consult exec owner name w = r := consults_iff hw.grounded
  refine ⟨fun name => ?_, fun r hr => ?_, fun r hr => ?_, fun r hr => ?_, fun u w' done => ?_,
    fun _ _ => rfl⟩
  · exact ⟨_, consulted.2 rfl, fun _ hr => (consulted.1 hr).symm⟩
  · obtain rfl := consulted.1 hr
    exact proceeds_trap (id_map _).symm rfl
  · obtain rfl := consulted.1 hr
    refine proceeds_trap (fun {f} => ?_) rfl
    exact Functor.map_map (fun _ => ()) (fun _ => v) (call exec f owner [key, v])
  · obtain rfl := consulted.1 hr
    exact proceeds_trap rfl rfl
  · change (trap exec owner w.wellKnown.elementSet >>= _) w = _ at done
    obtain ⟨handler, w₁, -, rest⟩ := Run.bind_eq_value done
    cases handler with
    | none =>
        change (Access.set exec owner _ v >>= _) w₁ = _ at rest
        obtain ⟨_, _, -, last⟩ := Run.bind_eq_value rest
        cases last
        rfl
    | some f =>
        obtain ⟨_, _, -, last⟩ := Run.bind_eq_value rest
        cases last
        rfl

/-- A handler is inherited, and a nearer property that cannot be called takes it away. -/
theorem World.Reached.computed_access_shadowed :
    let exec : Exec Unit Unit := fun _ _ => pure (.string "handled")
    ∃ w : World Unit Unit, w.Reached ∧
      perform exec 0 (.computedGet (.object ⟨2⟩) (.string "k")) w = .value (.string "handled") w ∧
      perform exec 0 (.computedGet (.object ⟨3⟩) (.string "k")) w =
        perform exec 0 (.accessGet (.object ⟨3⟩) (.text "k")) w := by
  intro exec
  obtain ⟨w, reached, facts⟩ := World.exists_reached (fun _ _ => .done (.ok .null)) 0
    (.look .wellKnown fun names =>
      .ask (.newFunction "handler" ()) fun _ => .ask (.newObject none) fun _ =>
      .ask (.define ⟨1⟩ (.name names.elementGet) (.hidden (.object ⟨0⟩))) fun _ =>
      .ask (.newObject (some ⟨1⟩)) fun _ => .ask (.newObject (some ⟨2⟩)) fun _ =>
      .ask (.define ⟨3⟩ (.name names.elementGet) (.hidden .null)) fun _ =>
      .ask .newKey fun _ => .done (.ok .null))
    (.initial id) () (fun w : World Unit Unit =>
      let own (i : Nat) := (w.heap.get ⟨i⟩).getOwn (.name w.wellKnown.elementGet)
      ((w.heap.get ⟨0⟩).body?, own 1, own 2, (w.heap.get ⟨2⟩).prototype, own 3))
    (show _ = some (some (.client ()), some (.hidden (.object ⟨0⟩)), none, some ⟨1⟩,
      some (.hidden .null)) by decide +kernel)
  simp only [Prod.mk.injEq] at facts
  obtain ⟨body, far, bare, up, near⟩ := facts
  have gets (owner : Value) := (reached.computed_access exec 0 owner (.string "k") .null).2.1
  refine ⟨w, reached, ?_, ?_⟩
  · have above : w.heap.Walk (fun q => (w.heap.get q).getOwn (.name w.wellKnown.elementGet))
        (w.heap.get ⟨2⟩).prototype (some (.hidden (.object ⟨0⟩))) := by
      rw [up]
      exact .stop far
    have taken := gets (.object ⟨2⟩) _ (.data (.up bare above) rfl)
    generalize perform exec 0 (.computedGet (.object ⟨2⟩) (.string "k")) w = out at taken
    cases taken with
    | handled => rfl
    | passed uncallable => cases body.symm.trans (uncallable _ rfl)
  · have left := gets (.object ⟨3⟩) _ (.data (.stop near) rfl)
    generalize perform exec 0 (.computedGet (.object ⟨3⟩) (.string "k")) w = out at left
    cases left with
    | passed => rfl

end Prototypal
