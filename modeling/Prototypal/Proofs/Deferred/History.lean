import Prototypal.Proofs.Recorder

/-!
# Histories of deferred results

A recorded run notes what happens to deferred results, event by event, each with the world right
after it.  The notes are a part of the client's state that the client does not see, and forgetting
them gives the run itself.
-/

namespace Prototypal

open Run (Agree)

variable {κ σ α : Type}

/-! ## Events -/

/-- What happens to deferred results. -/
inductive Event (κ : Type) where
  /-- A deferred is made that is not chained to another one. -/
  | made (d : DeferredId)
  /-- Handlers are registered, and the deferred of their promise is made. -/
  | registered (d : DeferredId) (l : Listener κ)
  /-- A deferred gets its outcome from a client or from a handler. -/
  | fired (d : DeferredId) (s : Settlement)
  /-- A deferred gets its outcome from its own cancellation. -/
  | cancelled (d : DeferredId) (s : Settlement)
  /-- A listener is taken off the queue. -/
  | taken (d : DeferredId) (l : Listener κ)
  /-- The handler of a listener starts. -/
  | started (d : DeferredId) (l : Listener κ) (code : κ) (v : Value)
  /-- A listener has made something of the outcome. -/
  | ended (d : DeferredId) (l : Listener κ) (result : Except Fault Value)
  /-- What a listener has made of the outcome is refused. -/
  | refused (l : Listener κ)
  /-- The listeners of a deferred have been told, and none is left. -/
  | told (d : DeferredId)
  /-- A client's use of a deferred returns without a fault. -/
  | returned (d : DeferredId)
  /-- The last reference to a deferred goes. -/
  | released (d : DeferredId)

/-- An event and the world right after it. -/
structure Moment (κ σ : Type) where
  event : Event κ
  world : World κ σ

/-- The moments so far, the latest first. -/
abbrev History (κ σ : Type) := List (Moment κ σ)

namespace World

/-- The world without its history. -/
def forget (w : World κ (σ × History κ σ)) : World κ σ := { w with client := w.client.1 }

/-- What has happened so far. -/
def history (w : World κ (σ × History κ σ)) : History κ σ := w.client.2

/-- The world with an event noted. -/
def note (w : World κ (σ × History κ σ)) (e : Event κ) : World κ (σ × History κ σ) :=
  { w with client := (w.client.1, ⟨e, w.forget⟩ :: w.history) }

/-- A world in which nothing has happened yet. -/
def remember (w : World κ σ) : World κ (σ × History κ σ) := { w with client := (w.client, []) }

@[simp]
theorem history_note (w : World κ (σ × History κ σ)) (e : Event κ) :
    (w.note e).history = ⟨e, w.forget⟩ :: w.history := rfl

end World

/-! ## Recorded runs

Each operation on deferred results is what it is without a record, with notes of what happens in
between. -/

namespace Recorded

def note (e : Event κ) : Run κ (σ × History κ σ) Unit := Run.modify (·.note e)

/-- Changes a deferred and notes the event. -/
def change (e : Event κ) (d : DeferredId) (deferred : Deferred κ) :
    Run κ (σ × History κ σ) Unit :=
  Run.modify fun w => (w.setDeferred d deferred).note e

def newDeferred (canceller : Option κ) : Run κ (σ × History κ σ) DeferredId := do
  let d ← Run.modifyGet (·.addDeferred (canceller.map .client))
  note (.made d)
  pure d

def fireWith (notify : DeferredId → Run κ (σ × History κ σ) Unit) (d : DeferredId)
    (s : Settlement) : Run κ (σ × History κ σ) Unit := do
  let deferred ← Run.view (·.deferred d)
  if deferred.isFired then Run.fail .alreadyFired
  else
    change (.fired d s) d { deferred with outcome := some s }
    notify d

variable (exec : Exec κ (σ × History κ σ))

def handle (d : DeferredId) (l : Listener κ) (s : Settlement) : Run κ (σ × History κ σ) Value :=
  match l.handler? s with
  | some code => do
    note (.started d l code s.payload)
    exec (.client code) (.settle l.promise s.payload)
  | none => pure .undefined

/-- Gives what a listener made of the outcome to the deferred of its promise. -/
def deliver (notify : DeferredId → Run κ (σ × History κ σ) Unit) (l : Listener κ)
    (s : Settlement) : Run κ (σ × History κ σ) Unit := do
  match ← (fireWith notify l.promise.deferred s).attempt with
  | .ok _ => pure ()
  | .error _ => note (.refused l)

def notify : Nat → DeferredId → Run κ (σ × History κ σ) Unit
  | 0, _ => Run.exhausted
  | n + 1, d => do
    let deferred ← Run.view (·.deferred d)
    match deferred.outcome, deferred.listeners.pop? with
    | some outcome, some (l, rest) =>
      change (.taken d l) d { deferred with listeners := rest }
      let result ← (handle exec d l outcome).attempt
      note (.ended d l result)
      deliver (notify n) l (← Deferred.settlementOf result)
      notify n d
    | _, _ => note (.told d)

def fire (n : Nat) (d : DeferredId) (s : Settlement) : Run κ (σ × History κ σ) Unit := do
  if (← Run.view (·.deferred d)).isChained then pure ()
  else
    fireWith (notify exec n) d s
    note (.returned d)

def listen (n : Nat) (d : DeferredId) (callback errback : Option κ) :
    Run κ (σ × History κ σ) Promise := do
  if ← Run.view (·.containsDeferred d) then
    let promise : Promise := ⟨← Run.modifyGet (·.addDeferred (some (.parent d)))⟩
    let deferred ← Run.view (·.deferred d)
    change (.registered d ⟨promise, callback, errback⟩) d
      { deferred with listeners := deferred.listeners.push ⟨promise, callback, errback⟩ }
    if deferred.isFired then notify exec n d
    note (.returned d)
    pure promise
  else
    .mk <$> newDeferred none

def abort (notify : DeferredId → Run κ (σ × History κ σ) Unit) (d : DeferredId) (reason : Value) :
    Run κ (σ × History κ σ) Unit := do
  let deferred ← Run.view (·.deferred d)
  if deferred.isFired then pure ()
  else
    change (.cancelled d (.error reason)) d { deferred with outcome := some (.error reason) }
    notify d

def cancel : Nat → DeferredId → Run κ (σ × History κ σ) Unit
  | 0, _ => Run.exhausted
  | n + 1, d => do
    let deferred ← Run.view (·.deferred d)
    if deferred.isFired then Run.fail .alreadyFinished
    else
      let result ← Deferred.runCanceller exec (cancel n) d deferred.canceller
      abort (notify exec n) d (← Deferred.reasonOf result)
      note (.returned d)

omit exec in
def release (d : DeferredId) : Run κ (σ × History κ σ) Unit := do
  let deferred ← Run.view (·.deferred d)
  change (.released d) d { deferred with released := true }

def perform (n : Nat) : Request κ α → Run κ (σ × History κ σ) α
  | .newDeferred canceller => newDeferred canceller
  | .fire d s => fire exec n d s
  | .listen d callback errback => listen exec n d callback errback
  | .cancel d => cancel exec n d
  | .release d => release d
  | request => Prototypal.perform exec n request

theorem perform_of_not_concernsDeferreds (n : Nat) {r : Request κ α}
    (hr : r.concernsDeferreds = false) : perform exec n r = Prototypal.perform exec n r := by
  cases r with
  | newDeferred | fire | listen | cancel | release => cases hr
  | _ => rfl

end Recorded

/-- The program of a client that does not see the history. -/
def Program.unaware (p : Program κ σ) : Program κ (σ × History κ σ) :=
  p.within Prod.fst fun s t => (s, t.2)

/-- Runs a body, or the code of a client. -/
def Recorded.execute (client : Client κ σ) : Nat → Exec κ (σ × History κ σ)
  | 0 => fun _ _ => Run.exhausted
  | n + 1 =>
    enter
      (fun code invocation =>
        (client code invocation).unaware.runWith (Recorded.perform (execute client n) n))
      (execute client n)

/-- Runs a program with the given fuel and notes what happens. -/
def Program.record (client : Client κ σ) (fuel : Nat) (p : Program κ σ) :
    Run κ (σ × History κ σ) Value :=
  p.unaware.runWith (Recorded.perform (Recorded.execute client fuel) fuel)

/-! ## Forgetting the history -/

namespace Recorded

/-- A recorded run and the run itself, up to the history. -/
def Forgets (v : World κ (σ × History κ σ)) (w : World κ σ) : Prop := v.forget = w

theorem lockstep :
    FullLockstep (Heap.Step fun _ _ _ => True)
      (Forgets : World κ (σ × History κ σ) → World κ σ → Prop) :=
  Recorder.lockstep

theorem forgets_note (e : Event κ) {x : Run κ (σ × History κ σ) α} {y : Run κ σ α}
    (h : Agree Forgets x y) : Agree Forgets (note e >>= fun _ => x) y :=
  fun _ _ hvw => h (hvw : Forgets _ _)

theorem forgets_change (e : Event κ) (d : DeferredId) (deferred : Deferred κ) :
    Agree Forgets (change e d deferred : Run κ (σ × History κ σ) Unit)
      (Run.modify (·.setDeferred d deferred)) := by
  refine .modify fun h => ?_
  rw [← h]
  rfl

/-- A note at the end of a run. -/
theorem forgets_note_last (e : Event κ) {x : Run κ (σ × History κ σ) Unit} {y : Run κ σ Unit}
    (h : Agree Forgets x y) : Agree Forgets (do x; note e) y := by
  rw [← bind_pure y]
  exact h.bind fun _ => .modify id

theorem forgets_newDeferred (canceller : Option κ) :
    Agree Forgets (newDeferred canceller : Run κ (σ × History κ σ) DeferredId)
      (Run.modifyGet (·.addDeferred (canceller.map .client))) := by
  rw [← bind_pure (Run.modifyGet (σ := σ) _)]
  exact (lockstep.addDeferred _).bind fun d => forgets_note _ (.pure d)

theorem forgets_release (d : DeferredId) :
    Agree Forgets (release d : Run κ (σ × History κ σ) Unit) (Deferred.release d) :=
  (lockstep.viewDeferred d).bind fun _ => forgets_change ..

theorem forgets_fireWith {notify : DeferredId → Run κ (σ × History κ σ) Unit}
    {notify' : DeferredId → Run κ σ Unit} (hn : ∀ d, Agree Forgets (notify d) (notify' d))
    (d : DeferredId) (s : Settlement) :
    Agree Forgets (fireWith notify d s) (Deferred.fireWith notify' d s) := by
  refine (lockstep.viewDeferred d).bind fun deferred => ?_
  split
  · exact .fail _
  · exact (forgets_change ..).bind fun _ => hn d

theorem forgets_deliver {notify : DeferredId → Run κ (σ × History κ σ) Unit}
    {notify' : DeferredId → Run κ σ Unit} (hn : ∀ d, Agree Forgets (notify d) (notify' d))
    (l : Listener κ) (s : Settlement) :
    Agree Forgets (deliver notify l s)
      (discard <| (Deferred.fireWith notify' l.promise.deferred s).attempt) := by
  change Agree Forgets _
    ((fun _ => ()) <$> (Deferred.fireWith notify' l.promise.deferred s).attempt)
  rw [map_eq_pure_bind]
  refine (forgets_fireWith hn ..).attempt.bind fun r => ?_
  cases r with
  | ok => exact .pure ()
  | error => exact .modify id

theorem forgets_abort {notify : DeferredId → Run κ (σ × History κ σ) Unit}
    {notify' : DeferredId → Run κ σ Unit} (hn : ∀ d, Agree Forgets (notify d) (notify' d))
    (d : DeferredId) (reason : Value) :
    Agree Forgets (abort notify d reason) (Deferred.abort notify' d reason) := by
  refine (lockstep.viewDeferred d).bind fun deferred => ?_
  split
  · exact .pure ()
  · exact (forgets_change ..).bind fun _ => hn d

section
variable {exec : Exec κ (σ × History κ σ)} {exec' : Exec κ σ}
  (he : Lockstep.ExecAgree Forgets exec exec')
include he

theorem forgets_handle (d : DeferredId) (l : Listener κ) (s : Settlement) :
    Agree Forgets (handle exec d l s) (Deferred.handle exec' l s) := by
  unfold handle Deferred.handle
  cases l.handler? s with
  | some code => exact forgets_note _ (he ..)
  | none => exact .pure _

theorem forgets_notify (n : Nat) (d : DeferredId) :
    Agree Forgets (notify exec n d) (Deferred.notify exec' n d) := by
  induction n generalizing d with
  | zero => exact .exhausted
  | succ n ih =>
      refine (lockstep.viewDeferred d).bind fun deferred => ?_
      cases deferred.outcome with
      | none => exact .modify id
      | some outcome =>
          cases deferred.listeners.pop? with
          | none => exact .modify id
          | some next =>
              refine (forgets_change ..).bind fun _ => ?_
              refine (forgets_handle he ..).attempt.bind fun result => forgets_note _ ?_
              refine (lockstep.settlementOf result).bind fun s => ?_
              exact (forgets_deliver ih ..).bind fun _ => ih d

theorem forgets_fire (n : Nat) (d : DeferredId) (s : Settlement) :
    Agree Forgets (fire exec n d s) (Deferred.fire exec' n d s) := by
  refine (lockstep.viewDeferred d).bind fun deferred => ?_
  split
  · exact .pure ()
  · exact forgets_note_last _ (forgets_fireWith (forgets_notify he n) d s)

theorem forgets_listen (n : Nat) (d : DeferredId) (callback errback : Option κ) :
    Agree Forgets (listen exec n d callback errback)
      (Deferred.listen exec' n d callback errback) := by
  have contains : Agree Forgets (Run.view (σ := σ × History κ σ) (·.containsDeferred d))
      (Run.view (·.containsDeferred d)) := .view fun h => by rw [← h]; rfl
  refine contains.bind fun contained => ?_
  split
  · refine (lockstep.addDeferred _).bind fun promise => ?_
    refine (lockstep.viewDeferred d).bind fun deferred => (forgets_change ..).bind fun _ => ?_
    split
    · exact (forgets_notify he n d).bind fun _ => forgets_note _ (.pure _)
    · exact forgets_note _ (.pure _)
  · exact (forgets_newDeferred none).map _

theorem forgets_cancel (n : Nat) (d : DeferredId) :
    Agree Forgets (cancel exec n d) (Deferred.cancel exec' n d) := by
  induction n generalizing d with
  | zero => exact .exhausted
  | succ n ih =>
      refine (lockstep.viewDeferred d).bind fun deferred => ?_
      split
      · exact .fail _
      · refine (lockstep.runCanceller he ih ..).bind fun result => ?_
        refine (lockstep.reasonOf result).bind fun reason => ?_
        exact forgets_note_last _ (forgets_abort (forgets_notify he n) d reason)

theorem forgets_perform (n : Nat) (r : Request κ α) :
    Agree Forgets (perform exec n r) (Prototypal.perform exec' n r) := by
  by_cases hr : r.concernsDeferreds = false
  · rw [perform_of_not_concernsDeferreds exec n hr]
    exact lockstep.toLockstep.perform he n hr
      (Request.within_step (fun _ => trivial) fun _ _ _ _ => trivial)
  · cases r with
    | newDeferred canceller => exact forgets_newDeferred canceller
    | fire => exact forgets_fire he ..
    | listen => exact forgets_listen he ..
    | cancel => exact forgets_cancel he ..
    | release d => exact forgets_release d
    | _ => exact absurd rfl hr

theorem forgets_program (n : Nat) (p : Program κ σ) :
    Agree Forgets (p.unaware.runWith (perform exec n)) (p.runWith (Prototypal.perform exec' n)) :=
  Recorder.forgets_noting (forgets_perform he n) p

end

theorem forgets_execute (client : Client κ σ) (n : Nat) :
    Lockstep.ExecAgree Forgets (execute client n) (Prototypal.execute client n) := by
  induction n with
  | zero => exact fun _ _ => .exhausted
  | succ n ih => exact lockstep.enter (fun _ _ => forgets_program ih n _) ih

end Recorded

/-- Forgetting the history of a recorded run gives the run. -/
theorem Program.forgets_record (client : Client κ σ) (fuel : Nat) (p : Program κ σ) :
    Agree Recorded.Forgets (p.record client fuel) (p.run client fuel) :=
  Recorded.forgets_program (Recorded.forgets_execute client fuel) fuel p

/-- One listener without handlers: it passes `undefined` on. -/
example (client : Client Unit Unit) (names : NameSource) (wellKnown : WellKnownNames) :
    let p : Program Unit Unit :=
      .ask (.newDeferred none) fun _ => .ask (.listen ⟨0⟩ none none) fun _ =>
      .ask (.fire ⟨0⟩ (.value .null)) fun _ => .done (.ok .null)
    let l : Listener Unit := ⟨⟨⟨1⟩⟩, none, none⟩
    ((p.record client 4 ⟨.empty, #[], #[], names, wellKnown, (), []⟩).world?.map
      fun w => w.history.reverse.map (·.event)) =
    some [.made ⟨0⟩, .registered ⟨0⟩ l, .returned ⟨0⟩, .fired ⟨0⟩ (.value .null), .taken ⟨0⟩ l,
      .ended ⟨0⟩ l (.ok .undefined), .fired ⟨1⟩ (.value .undefined), .told ⟨1⟩, .told ⟨0⟩,
      .returned ⟨0⟩] := by
  intro p l
  cbv

end Prototypal
