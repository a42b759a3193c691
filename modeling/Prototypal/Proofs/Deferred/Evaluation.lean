import Prototypal.Deferred.Firing
import Prototypal.Proofs.Agreement
import Prototypal.Proofs.ErrorObject

/-!
# Evaluation along a path

What the handlers on the way from a root make of its outcome, if each of them computes a function.
An object that was there before counts as itself; of an error object that is made on the way, only
the name and the message count.
-/

namespace Prototypal

variable {κ σ : Type}

/-! ## Data -/

/-- What the functions that handlers compute take and give: a value as it is, or a new error object
with a name and a message. -/
inductive Datum where
  | plain (v : Value)
  | error (name message : String)

/-- How such a function fails. -/
structure Failure where
  name : String
  message : String

/-- What can be told from a fault. -/
def Fault.failure (f : Fault) : Failure := ⟨f.surfaceName, f.message⟩

/-- A value in the heap `h` amounts to a datum, if `h₀` is what was there before. -/
def Value.Shows (h₀ h : Heap κ) (v : Value) : Datum → Prop
  | .plain u => v = u ∧ ∀ o, v = .object o → h₀.contains o = true
  | .error n m =>
    ∃ o, v = .object o ∧ h₀.contains o = false ∧ h.get o = .error n m

/-- What a deferred fires with, as far as it can be told. -/
inductive Issue where
  | value (x : Datum)
  | error (x : Datum)

def Settlement.Shows (h₀ h : Heap κ) : Settlement → Issue → Prop
  | .value v, .value x | .error v, .error x => v.Shows h₀ h x
  | _, _ => False

/-- What a deferred is fired with from outside. -/
def Settlement.issue : Settlement → Issue
  | .value v => .value (.plain v)
  | .error v => .error (.plain v)

theorem Object.error_inj {name message name' message' : String}
    (h : (Object.error name message : Object κ) = .error name' message') :
    name = name' ∧ message = message' := by
  have names : some (Property.hidden (.string name)) = some (.hidden (.string name')) :=
    congrArg (·.getOwn (.text "name")) h
  have messages : some (Property.hidden (.string message)) = some (.hidden (.string message')) :=
    congrArg (·.getOwn (.text "message")) h
  cases names
  cases messages
  exact ⟨rfl, rfl⟩

section
variable {h₀ h h' : Heap κ} {v : Value} {s : Settlement} {x y : Datum} {i j : Issue}

theorem Value.Shows.unique (hx : v.Shows h₀ h x) (hy : v.Shows h₀ h y) : x = y := by
  match x, y with
  | .plain _, .plain _ => exact congrArg Datum.plain (hx.1.symm.trans hy.1)
  | .plain _, .error _ _ =>
      obtain ⟨o, ho, fresh, -⟩ := hy
      cases fresh.symm.trans (hx.2 o ho)
  | .error _ _, .plain _ =>
      obtain ⟨o, ho, fresh, -⟩ := hx
      cases fresh.symm.trans (hy.2 o ho)
  | .error _ _, .error _ _ =>
      obtain ⟨_, rfl, -, ho⟩ := hx
      obtain ⟨_, same, -, hp⟩ := hy
      cases same
      obtain ⟨rfl, rfl⟩ := Object.error_inj (ho.symm.trans hp)
      rfl

theorem Settlement.Shows.unique (hi : s.Shows h₀ h i) (hj : s.Shows h₀ h j) : i = j := by
  match s, i, j with
  | .value _, .value _, .value _ => exact congrArg Issue.value (Value.Shows.unique hi hj)
  | .error _, .error _, .error _ => exact congrArg Issue.error (Value.Shows.unique hi hj)

/-- New objects change nothing. -/
theorem Value.Shows.later (shows : v.Shows h₀ h x) (l : h.Leaves (h.contains · = true) h') :
    v.Shows h₀ h' x := by
  match x with
  | .plain _ => exact shows
  | .error n m =>
      obtain ⟨o, ho, fresh, same⟩ := shows
      have contained : h.contains o = true := Heap.contains_of_ne_inert fun inert => by
        cases congrArg (·.getOwn (.text "name")) (inert.symm.trans same)
      exact ⟨o, ho, fresh, (l.get contained).trans same⟩

theorem Settlement.Shows.later (shows : s.Shows h₀ h i) (l : h.Leaves (h.contains · = true) h') :
    s.Shows h₀ h' i := by
  match s, i with
  | .value _, .value _ => exact Value.Shows.later shows l
  | .error _, .error _ => exact Value.Shows.later shows l

theorem Settlement.shows_issue (hs : ∀ o, s.payload = .object o → h₀.contains o = true) :
    s.Shows h₀ h s.issue := by
  cases s with
  | value => exact ⟨rfl, hs⟩
  | error => exact ⟨rfl, hs⟩

end

/-! ## Functions -/

/-- All that there is in `w₀` is in `w` as it was, up to deferred results and what the client keeps
for itself. -/
structure World.Extends (w₀ w : World κ σ) : Prop where
  heap : w₀.heap.Leaves (w₀.heap.contains · = true) w.heap
  wellKnown : w.wellKnown = w₀.wellKnown

theorem World.Extends.refl (w : World κ σ) : w.Extends w := ⟨.refl .., rfl⟩

theorem World.Extends.trans {w₀ w w' : World κ σ} (h : w₀.Extends w) (h' : w.Extends w') :
    w₀.Extends w' where
  heap := h.heap.trans (h'.heap.mono fun _ ho => h.heap.contains ho)
  wellKnown := h'.wellKnown.trans h.wellKnown

/-- The result of client code amounts to what a function gives. -/
def Yields (h₀ h : Heap κ) : Except Fault Value → Except Failure Datum → Prop
  | .ok v, .ok x => v.Shows h₀ h x
  | .error f, .error e => f.failure = e
  | _, _ => False

/-- As a handler, the code computes a function from `w₀` on: whatever else is in the world, the
result depends only on what the argument shows, and the code changes neither an object that was
there nor a deferred. -/
def Computes (exec : Exec κ σ) (w₀ : World κ σ) (code : κ) (f : Datum → Except Failure Datum) :
    Prop :=
  ∀ (w : World κ σ) (p : Promise) (v : Value) (x : Datum), w₀.Extends w →
    v.Shows w₀.heap w.heap x →
    (exec (.client code) (.settle p v)).attempt.Succeeds w fun result w' =>
      Yields w₀.heap w'.heap result (f x) ∧ w.Extends w' ∧ w'.deferreds = w.deferreds

/-! ## Handlers -/

/-- The handlers of a registration. -/
structure Handlers (κ : Type) where
  callback : Option κ
  errback : Option κ

def Listener.handlers (l : Listener κ) : Handlers κ := ⟨l.callback, l.errback⟩

namespace Issue

def datum : Issue → Datum
  | .value x | .error x => x

/-- The issue for a promise whose handler gave a reply. -/
def ofReply : Except Failure Datum → Issue
  | .ok x => .value x
  | .error e => .error (.error e.name e.message)

end Issue

namespace Handlers

/-- The handler for an issue. -/
def handler? (h : Handlers κ) : Issue → Option κ
  | .value _ => h.callback
  | .error _ => h.errback

variable (meaning : κ → Datum → Except Failure Datum)

/-- What the handler for an issue gives; an absent one gives `undefined`. -/
def reply (h : Handlers κ) (i : Issue) : Except Failure Datum :=
  match h.handler? i with
  | some code => meaning code i.datum
  | none => .ok (.plain .undefined)

/-- Every handler computes its meaning. -/
def Compute (exec : Exec κ σ) (w₀ : World κ σ) (h : Handlers κ) : Prop :=
  ∀ i code, h.handler? i = some code → Computes exec w₀ code (meaning code)

end Handlers

/-- The issue for the promise at the end of a path, whose last step comes first, if the root has the
issue `start`. -/
def evaluate (meaning : κ → Datum → Except Failure Datum) (plan : List Nat → Handlers κ)
    (start : Issue) : List Nat → Issue
  | [] => start
  | i :: path => .ofReply ((plan (i :: path)).reply meaning (evaluate meaning plan start path))

namespace Settlement.Shows

variable {h₀ h : Heap κ} {s : Settlement} {i : Issue}

theorem payload (shows : s.Shows h₀ h i) : s.payload.Shows h₀ h i.datum := by
  match s, i with
  | .value _, .value _ | .error _, .error _ => exact shows

theorem handler? (shows : s.Shows h₀ h i) (l : Listener κ) :
    l.handlers.handler? i = l.handler? s := by
  match s, i with
  | .value _, .value _ | .error _, .error _ => rfl

end Settlement.Shows

namespace Deferred

variable {meaning : κ → Datum → Except Failure Datum} {exec : Exec κ σ} {w₀ w : World κ σ}
  {l : Listener κ} {s : Settlement} {i : Issue}

/-- A handler that is told an outcome gives what its meaning gives for the issue. -/
theorem handle_yields (pure : l.handlers.Compute meaning exec w₀) (ext : w₀.Extends w)
    (shows : s.Shows w₀.heap w.heap i) :
    (handle exec l s).attempt.Succeeds w fun result w' =>
      Yields w₀.heap w'.heap result (l.handlers.reply meaning i) ∧ w.Extends w' ∧
        w'.deferreds = w.deferreds := by
  have same := shows.handler? l
  cases hc : l.handler? s with
  | some code =>
      simp only [handle, Handlers.reply, same, hc]
      exact pure i code (same.trans hc) w l.promise _ _ ext shows.payload
  | none =>
      simp only [handle, Handlers.reply, same, hc]
      exact ⟨.ok .undefined, w, rfl, ⟨rfl, nofun⟩, .refl w, rfl⟩

/-- The settlement that comes of it shows the issue for the promise; a fault becomes an error
object. -/
theorem settlementOf_shows {result : Except Fault Value} {reply : Except Failure Datum}
    (ext : w₀.Extends w) (yields : Yields w₀.heap w.heap result reply) :
    (settlementOf result).Succeeds w fun s w' =>
      s.Shows w₀.heap w'.heap (.ofReply reply) ∧ w.Extends w' ∧ w'.deferreds = w.deferreds := by
  match result, reply with
  | .ok v, .ok x => exact ⟨.value v, w, rfl, yields, .refl w, rfl⟩
  | .error f, .error _ =>
      cases yields
      have fresh : w₀.heap.contains w.heap.next = false := by
        refine Bool.eq_false_iff.2 fun contained => ?_
        exact nomatch (w.heap.contains_next).symm.trans (ext.heap.contains contained)
      exact ⟨_, _, rfl, ⟨_, rfl, fresh, Heap.get_allocate_next _ (.ofFault f)⟩,
        ⟨.allocate .., rfl⟩, rfl⟩

end Deferred

end Prototypal
