import Prototypal.World

/-!
# Runs

A run takes a world to a result or a fault and the world it leaves, unless its fuel is exhausted.
What was changed before a fault stays changed.
-/

namespace Prototypal

/-- How a run ends. -/
inductive Outcome (ω α : Type) where
  /-- With a result. -/
  | value (a : α) (world : ω)
  /-- With a fault. -/
  | fault (f : Fault) (world : ω)
  /-- Not within its fuel. -/
  | exhausted

/-- A computation in the world. -/
def Run (κ σ α : Type) := World κ σ → Outcome (World κ σ) α

namespace Run

variable {κ σ α β : Type}

/-- Ends with a result. -/
protected def pure (a : α) : Run κ σ α := fun w => .value a w

/-- Goes on with the result; a fault or exhaustion ends the run. -/
protected def bind (x : Run κ σ α) (f : α → Run κ σ β) : Run κ σ β := fun w =>
  match x w with
  | .value a w => f a w
  | .fault e w => .fault e w
  | .exhausted => .exhausted

instance : Monad (Run κ σ) where
  pure := Run.pure
  bind := Run.bind

/-- Fails. -/
def fail (f : Fault) : Run κ σ α := fun w => .fault f w

/-- Runs out of fuel. -/
def exhausted : Run κ σ α := fun _ => .exhausted

/-- The result or the fault of a run; only exhaustion ends the run that asks. -/
def attempt (x : Run κ σ α) : Run κ σ (Except Fault α) := fun w =>
  match x w with
  | .value a w => .value (.ok a) w
  | .fault e w => .value (.error e) w
  | .exhausted => .exhausted

/-- Ends as the given result says. -/
def ofExcept : Except Fault α → Run κ σ α
  | .ok a => Run.pure a
  | .error e => fail e

/-- A look at the world. -/
def view (f : World κ σ → α) : Run κ σ α := fun w => .value (f w) w

/-- A change of the world. -/
def modify (f : World κ σ → World κ σ) : Run κ σ Unit := fun w => .value () (f w)

/-- A change of the world that gives something. -/
def modifyGet (f : World κ σ → α × World κ σ) : Run κ σ α := fun w =>
  let (a, w) := f w
  .value a w

/-! ## Parts of the world -/

/-- A look at the heap. -/
def viewHeap (f : Heap κ → α) : Run κ σ α := view fun w => f w.heap

/-- A change of one object, which gives something.  It may fail, and then changes nothing. -/
def changeGet (o : ObjectId) (f : Object κ → Except Fault (α × Object κ)) : Run κ σ α := fun w =>
  match f (w.heap.get o) with
  | .ok (a, object) => .value a { w with heap := w.heap.set o object }
  | .error e => .fault e w

/-- A change of one object.  It may fail, and then changes nothing. -/
def change (o : ObjectId) (f : Object κ → Except Fault (Object κ)) : Run κ σ Unit := fun w =>
  match f (w.heap.get o) with
  | .ok object => .value () { w with heap := w.heap.set o object }
  | .error e => .fault e w

/-- Gives an object another prototype, or none; refused if that would close a circle. -/
def setPrototype (o : ObjectId) (prototype : Option ObjectId) : Run κ σ Unit := fun w =>
  if w.heap.closesCircle o prototype then .fault .cyclicPrototype w
  else .value () { w with heap := w.heap.setPrototype o prototype }

/-- Adds an object. -/
def allocate (object : Object κ) : Run κ σ ObjectId :=
  modifyGet fun w => let (o, heap) := w.heap.allocate object; (o, { w with heap })

/-- Draws on the source of names. -/
def drawName (f : NameSource → α × NameSource) : Run κ σ α :=
  modifyGet fun w => let (a, names) := f w.names; (a, { w with names })

/-- Makes an error object of a fault: its name and its message, both hidden from enumeration. -/
def reify (f : Fault) : Run κ σ Value :=
  .object <$> allocate
    { Object.make .ordinary none with
      table := .ofList [(.text "name", .hidden (.string f.surfaceName)),
        (.text "message", .hidden (.string f.message))] }

/-! ## Laws -/

@[simp]
theorem pure_apply (a : α) (w : World κ σ) : (pure a : Run κ σ α) w = .value a w := rfl

theorem bind_apply (x : Run κ σ α) (f : α → Run κ σ β) (w : World κ σ) :
    (x >>= f) w = match x w with
      | .value a w => f a w
      | .fault e w => .fault e w
      | .exhausted => .exhausted := rfl

theorem view_bind (f : World κ σ → α) (g : α → Run κ σ β) (w : World κ σ) :
    (view f >>= g) w = g (f w) w := rfl

theorem viewHeap_bind (f : Heap κ → α) (g : α → Run κ σ β) (w : World κ σ) :
    (viewHeap f >>= g) w = g (f w.heap) w := rfl

theorem allocate_bind (object : Object κ) (f : ObjectId → Run κ σ α) (w : World κ σ) :
    (allocate object >>= f) w = f w.heap.next { w with heap := (w.heap.allocate object).2 } := rfl

theorem map_congr {f : α → β} {x y : Run κ σ α} {w : World κ σ} (h : x w = y w) :
    (f <$> x) w = (f <$> y) w := by
  change Run.bind x _ w = Run.bind y _ w
  simp only [Run.bind, h]

theorem bind_of_value {x : Run κ σ α} {f : α → Run κ σ β} {w w' : World κ σ} {a : α}
    (h : x w = .value a w') : (x >>= f) w = f a w' := by
  rw [bind_apply, h]

theorem bind_of_fault {x : Run κ σ α} {f : α → Run κ σ β} {w w' : World κ σ} {e : Fault}
    (h : x w = .fault e w') : (x >>= f) w = .fault e w' := by
  rw [bind_apply, h]

theorem bind_eq_value {x : Run κ σ α} {f : α → Run κ σ β} {w w' : World κ σ} {b : β}
    (h : (x >>= f) w = .value b w') : ∃ a v, x w = .value a v ∧ f a v = .value b w' := by
  rw [bind_apply] at h
  split at h
  · exact ⟨_, _, ‹_›, h⟩
  · cases h
  · cases h

theorem bind_eq_fault {x : Run κ σ α} {f : α → Run κ σ β} {w w' : World κ σ} {e : Fault}
    (h : (x >>= f) w = .fault e w') :
    x w = .fault e w' ∨ ∃ a v, x w = .value a v ∧ f a v = .fault e w' := by
  rw [bind_apply] at h
  split at h
  · exact .inr ⟨_, _, ‹_›, h⟩
  · next hx =>
    cases h
    exact .inl hx
  · cases h

theorem change_of_ok {o : ObjectId} {f : Object κ → Except Fault (Object κ)} {w : World κ σ}
    {object : Object κ} (h : f (w.heap.get o) = .ok object) :
    change o f w = .value () { w with heap := w.heap.set o object } := by
  simp only [change, h]

theorem change_of_error {o : ObjectId} {f : Object κ → Except Fault (Object κ)} {w : World κ σ}
    {e : Fault} (h : f (w.heap.get o) = .error e) : change o f w = .fault e w := by
  simp only [change, h]

theorem change_eq_value {o : ObjectId} {f : Object κ → Except Fault (Object κ)} {w w' : World κ σ}
    (h : change o f w = .value () w') :
    ∃ object, f (w.heap.get o) = .ok object ∧ w' = { w with heap := w.heap.set o object } := by
  unfold change at h
  split at h
  · cases h
    exact ⟨_, ‹_›, rfl⟩
  · cases h

theorem change_eq_fault {o : ObjectId} {f : Object κ → Except Fault (Object κ)} {w w' : World κ σ}
    {e : Fault} (h : change o f w = .fault e w') : f (w.heap.get o) = .error e ∧ w' = w := by
  unfold change at h
  split at h
  · cases h
  · cases h
    exact ⟨‹_›, rfl⟩

theorem setPrototype_eq_value {o : ObjectId} {prototype : Option ObjectId} {w w' : World κ σ}
    (h : setPrototype o prototype w = .value () w') :
    w' = { w with heap := w.heap.setPrototype o prototype } := by
  unfold setPrototype at h
  split at h <;> cases h
  rfl

theorem changeGet_of_ok {o : ObjectId} {f : Object κ → Except Fault (α × Object κ)} {w : World κ σ}
    {a : α} {object : Object κ} (h : f (w.heap.get o) = .ok (a, object)) :
    changeGet o f w = .value a { w with heap := w.heap.set o object } := by
  simp only [changeGet, h]

private theorem bind_pure_run (x : Run κ σ α) : Run.bind x Run.pure = x := by
  funext w
  unfold Run.bind
  cases x w <;> rfl

private theorem bind_assoc_run {γ : Type} (x : Run κ σ α) (f : α → Run κ σ β) (g : β → Run κ σ γ) :
    Run.bind (Run.bind x f) g = Run.bind x fun a => Run.bind (f a) g := by
  funext w
  unfold Run.bind
  cases x w <;> rfl

instance : LawfulMonad (Run κ σ) :=
  LawfulMonad.mk' _ bind_pure_run (fun _ _ => rfl) bind_assoc_run

end Run

end Prototypal
