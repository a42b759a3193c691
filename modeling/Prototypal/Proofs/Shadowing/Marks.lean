import Prototypal.Proofs.Recorder

/-!
# Marks of shadowing

An object that only inherits a private name gets an own property when it is assigned, as under any
other key, and a class gets copies of what its members object has.  A marked run notes both, and
when such a property is deleted or hidden.  The marks are a part of the client's state that the
client does not see, and forgetting them gives the run itself.
-/

namespace Prototypal

open Run (Agree)

variable {κ σ α : Type}

/-- How an object may get a property under a private name that enumeration shows, and how it loses
it. -/
inductive Mark where
  /-- The object is assigned a name under which it only inherits a value. -/
  | shadowed (o : ObjectId) (n : PrivateName)
  /-- The properties of an object are copied onto another one. -/
  | copied (source target : ObjectId)
  /-- What the object has under the name is deleted, or hidden by a definition. -/
  | cleared (o : ObjectId) (n : PrivateName)
deriving DecidableEq

/-- The marks so far, the latest first. -/
abbrev Marks := List Mark

/-- The marks account for a name on an object: the object was assigned it, or got copies from an
object for which the marks before that accounted, and what it got was not cleared since. -/
def Marks.Account : Marks → ObjectId → PrivateName → Prop
  | [], _, _ => False
  | .shadowed o' n' :: marks, o, n => (o' = o ∧ n' = n) ∨ Account marks o n
  | .copied source target :: marks, o, n =>
    (target = o ∧ Account marks source n) ∨ Account marks o n
  | .cleared o' n' :: marks, o, n => ¬ (o' = o ∧ n' = n) ∧ Account marks o n

/-- Assignment under a private name would shadow an inherited one: the object takes new properties
and only inherits a writable value. -/
def Heap.shadows (h : Heap κ) (o : ObjectId) (n : PrivateName) : Bool :=
  (h.get o).extensible && ((h.get o).getOwn (.name n)).isNone &&
    match h.findSlot o (.name n) with
    | some (.data _ writable) => writable
    | _ => false

namespace World

/-- The world without its marks. -/
def unmarked (w : World κ (σ × Marks)) : World κ σ := { w with client := w.client.1 }

/-- What was marked so far. -/
def marks (w : World κ (σ × Marks)) : Marks := w.client.2

/-- A world in which nothing was marked yet. -/
def unmark (w : World κ σ) : World κ (σ × Marks) := { w with client := (w.client, []) }

end World

/-! ## Marked runs

Each operation is what it is without marks, with marks before an assignment that shadows and before
properties are copied, and after a property is deleted or defined as hidden. -/

namespace Marked

/-- Notes marks, which depend on the heap. -/
def mark (marks : Heap κ → Marks) : Run κ (σ × Marks) Unit :=
  Run.modify fun w => { w with client := (w.client.1, marks w.heap ++ w.marks) }

/-- What an assignment marks. -/
def ofAssignment (owner : Value) (k : Key) (h : Heap κ) : Marks :=
  match owner, k with
  | .object o, .name n => if h.shadows o n then [.shadowed o n] else []
  | _, _ => []

/-- What a deletion marks, or a definition that hides. -/
def ofClearing (owner : Value) (k : Key) : Marks :=
  match owner, k with
  | .object o, .name n => [.cleared o n]
  | _, _ => []

/-- Runs what deletes or hides a property, and marks that once it is done. -/
def clearing (owner : Value) (k : Key) (x : Run κ (σ × Marks) α) : Run κ (σ × Marks) α := do
  let a ← x
  mark fun _ => ofClearing owner k
  pure a

def define (o : ObjectId) (k : Key) (d : Descriptor) : Run κ (σ × Marks) Unit :=
  if d.enumerable = some false then clearing (.object o) k (Run.change o (·.define k d))
  else Run.change o (·.define k d)

def delete (o : ObjectId) (k : Key) : Run κ (σ × Marks) Unit :=
  clearing (.object o) k (Run.change o (·.delete k))

def accessDelete (owner : Value) (k : Key) : Run κ (σ × Marks) Bool :=
  clearing owner k (Access.delete owner k)

/-- What access defines under a private name is hidden. -/
def accessDefine (owner : Value) (k : Key) (d : Descriptor) : Run κ (σ × Marks) Unit :=
  clearing owner k (Access.define owner k d)

variable (exec : Exec κ (σ × Marks))

def accessSet (owner : Value) (k : Key) (v : Value) : Run κ (σ × Marks) Unit := do
  mark (ofAssignment owner k)
  Access.set exec owner k v

def computedSet (owner key v : Value) : Run κ (σ × Marks) Value := do
  match ← ComputedAccess.trap exec owner (← Run.view (·.wellKnown)).elementSet with
  | some f => discard <| call exec f owner [key, v]
  | none => accessSet exec owner (← Run.viewHeap (·.key key)) v
  pure v

def computedDelete (owner key : Value) : Run κ (σ × Marks) Bool := do
  match ← ComputedAccess.trap exec owner (← Run.view (·.wellKnown)).elementDelete with
  | some f => return (← call exec f owner [key]).isTruthy
  | none => accessDelete owner (← Run.viewHeap (·.key key))

/-- The copies go onto the object that is made next. -/
def copyOnto (prototype : Option ObjectId) (source : ObjectId) : Run κ (σ × Marks) ObjectId := do
  mark fun h => [.copied source h.next]
  Class.copyOnto prototype source

def createClass (constructor members : ObjectId) (parent : Value) :
    Run κ (σ × Marks) ObjectId := do
  let parent ← match parent with
    | .null => pure none
    | .object p => pure (some p)
    | _ => Run.fail .invalidParent
  Run.change members (·.define .constructor (.onlyValue (.object constructor)))
  let above ← Class.inheritFrom exec constructor parent
  let prototype ← copyOnto above members
  Run.change constructor (·.define .prototype (.onlyValue (.object prototype)))
  pure constructor

def perform (n : Nat) : Request κ α → Run κ (σ × Marks) α
  | .define o k d => define o k d
  | .delete o k => delete o k
  | .accessSet owner k v => accessSet exec owner k v
  | .accessDelete owner k => accessDelete owner k
  | .accessDefine owner k d => accessDefine owner k d
  | .computedSet owner key v => computedSet exec owner key v
  | .computedDelete owner key => computedDelete exec owner key
  | .createClass constructor members parent => createClass exec constructor members parent
  | request => Prototypal.perform exec n request

end Marked

/-- The program of a client that does not see the marks. -/
def Program.unmarking (p : Program κ σ) : Program κ (σ × Marks) :=
  p.within Prod.fst fun s t => (s, t.2)

/-- Runs a body, or the code of a client. -/
def Marked.execute (client : Client κ σ) : Nat → Exec κ (σ × Marks)
  | 0 => fun _ _ => Run.exhausted
  | n + 1 =>
    enter
      (fun code invocation =>
        (client code invocation).unmarking.runWith (Marked.perform (execute client n) n))
      (execute client n)

/-- Runs a program with the given fuel and marks what shadows. -/
def Program.mark (client : Client κ σ) (fuel : Nat) (p : Program κ σ) :
    Run κ (σ × Marks) Value :=
  p.unmarking.runWith (Marked.perform (Marked.execute client fuel) fuel)

/-! ## Forgetting the marks -/

namespace Marked

/-- A marked run and the run itself, up to the marks. -/
def Forgets (v : World κ (σ × Marks)) (w : World κ σ) : Prop := v.unmarked = w

theorem lockstep :
    FullLockstep (Heap.Step fun _ _ _ => True)
      (Forgets : World κ (σ × Marks) → World κ σ → Prop) :=
  Recorder.lockstep

theorem forgets_mark (marks : Heap κ → Marks) {x : Run κ (σ × Marks) α} {y : Run κ σ α}
    (h : Agree Forgets x y) : Agree Forgets (mark marks >>= fun _ => x) y :=
  fun _ _ hvw => h (hvw : Forgets _ _)

theorem forgets_clearing (owner : Value) (k : Key) {x : Run κ (σ × Marks) α} {y : Run κ σ α}
    (h : Agree Forgets x y) : Agree Forgets (clearing owner k x) y := by
  rw [← bind_pure y]
  exact h.bind fun a => forgets_mark _ (.pure a)

section
variable {exec : Exec κ (σ × Marks)} {exec' : Exec κ σ}
  (he : Lockstep.ExecAgree Forgets exec exec')
include he

theorem forgets_accessSet (owner : Value) (k : Key) (v : Value) :
    Agree Forgets (accessSet exec owner k v) (Access.set exec' owner k v) :=
  forgets_mark _ (lockstep.accessSet he owner k v fun _ _ {_ _} => .define trivial)

theorem forgets_computedSet (owner key v : Value) :
    Agree Forgets (computedSet exec owner key v) (ComputedAccess.set exec' owner key v) := by
  refine lockstep.viewWellKnown.bind fun names => (lockstep.trap he ..).bind fun handler => ?_
  cases handler with
  | some f => exact (lockstep.call he ..).discard.bind fun _ => .pure v
  | none => exact (lockstep.viewHeap _).bind fun k =>
      (forgets_accessSet he ..).bind fun _ => .pure v

theorem forgets_computedDelete (owner key : Value) :
    Agree Forgets (computedDelete exec owner key) (ComputedAccess.delete exec' owner key) := by
  refine lockstep.viewWellKnown.bind fun names => (lockstep.trap he ..).bind fun handler => ?_
  cases handler with
  | some f => exact (lockstep.call he ..).bind fun _ => .pure _
  | none => exact (lockstep.viewHeap _).bind fun k =>
      forgets_clearing _ _ (lockstep.accessDelete owner k)

theorem forgets_createClass (constructor members : ObjectId) (parent : Value) :
    Agree Forgets (createClass exec constructor members parent)
      (Class.create exec' constructor members parent) := by
  have copied (above : Option ObjectId) :
      Agree Forgets (copyOnto above members : Run κ (σ × Marks) ObjectId)
        (Class.copyOnto above members) :=
    forgets_mark _ (lockstep.copyOnto (Heap.Step.copies fun _ => trivial) above members)
  have create (parent : Option ObjectId) (_ : Unit) :=
    (lockstep.inheritFrom he constructor parent).bind fun above =>
    (copied above).bind fun prototype =>
    (lockstep.defineDiscreet (o := constructor) (k := .prototype)
      (.onlyValue (.object prototype))).bind fun _ =>
    Agree.pure constructor
  cases parent with
  | null => exact (lockstep.defineDiscreet (.onlyValue _)).bind (create none)
  | object p => exact (lockstep.defineDiscreet (.onlyValue _)).bind (create (some p))
  | _ => exact .fail _

theorem forgets_perform (n : Nat) (r : Request κ α) :
    Agree Forgets (perform exec n r) (Prototypal.perform exec' n r) := by
  have plain : Agree Forgets (Prototypal.perform exec n r) (Prototypal.perform exec' n r) :=
    lockstep.perform he n (Request.within_step (fun _ => trivial) fun _ _ _ _ => trivial)
  cases r with
  | define o k d =>
      change Agree Forgets (define o k d) _
      unfold define
      split
      · exact forgets_clearing _ _ plain
      · exact plain
  | delete | accessDelete | accessDefine => exact forgets_clearing _ _ plain
  | accessSet => exact forgets_accessSet he ..
  | computedSet => exact forgets_computedSet he ..
  | computedDelete => exact forgets_computedDelete he ..
  | createClass => exact forgets_createClass he ..
  | _ => exact plain

theorem forgets_program (n : Nat) (p : Program κ σ) :
    Agree Forgets (p.unmarking.runWith (perform exec n)) (p.runWith (Prototypal.perform exec' n)) :=
  Recorder.forgets_noting (forgets_perform he n) p

end

theorem forgets_execute (client : Client κ σ) (n : Nat) :
    Lockstep.ExecAgree Forgets (execute client n) (Prototypal.execute client n) := by
  induction n with
  | zero => exact fun _ _ => .exhausted
  | succ n ih => exact lockstep.enter (fun _ _ => forgets_program ih n _) ih

end Marked

/-- Forgetting the marks of a marked run gives the run. -/
theorem Program.forgets_mark (client : Client κ σ) (fuel : Nat) (p : Program κ σ) :
    Agree Marked.Forgets (p.mark client fuel) (p.run client fuel) :=
  Marked.forgets_program (Marked.forgets_execute client fuel) fuel p

end Prototypal
