import Prototypal.Proofs.Deferred.Theorems
import Prototypal.Proofs.ErrorObject

/-!
# Outcomes are written once

Whatever handlers and cancellers do, and whatever world they find, no run takes an outcome away or
puts another one in its place.  So it does no harm that client code runs between the moment when a
cancellation looks whether a deferred has fired and the moment when it settles the deferred.
-/

namespace Prototypal

variable {κ σ α : Type}

/-- Wherever the run starts, it leaves a later world. -/
def Advances (x : Run κ σ α) : Prop := ∀ w₀ : World κ σ, Run.Keeps w₀.Later x

namespace Deferred

variable {exec : Exec κ σ} {w w' : World κ σ} {d : DeferredId}

theorem contains_of_pop {l : Listener κ} {rest : Queue (Listener κ)}
    (hp : (w.deferred d).listeners.pop? = some (l, rest)) : w.containsDeferred d = true := by
  refine eq_true_of_ne_false fun hd => ?_
  rw [World.deferred_of_not_contains hd] at hp
  cases hp

theorem fireWith_advances {notify : DeferredId → Run κ σ Unit} (hn : ∀ d, Advances (notify d))
    (d : DeferredId) (s : Settlement) : Advances (fireWith notify d s) := by
  intro w₀ w h
  refine .view ?_
  split
  · exact h
  · next hd => exact .modify (hn d w₀ _ (h.trans (.settle hd s)))

theorem abort_advances {notify : DeferredId → Run κ σ Unit} (hn : ∀ d, Advances (notify d))
    (d : DeferredId) (reason : Value) : Advances (abort notify d reason) := by
  intro w₀ w h
  refine .view ?_
  split
  · exact h
  · next hd => exact .modify (hn d w₀ _ (h.trans (.settle hd _)))

section
variable (he : ∀ body invocation, Advances (exec body invocation))
include he

theorem handle_advances (l : Listener κ) (s : Settlement) : Advances (handle exec l s) := by
  intro w₀ w h
  unfold handle
  split
  · exact he _ _ w₀ w h
  · exact h

theorem notify_advances (n : Nat) (d : DeferredId) : Advances (notify exec n d) := by
  induction n generalizing d with
  | zero => exact fun _ _ _ => trivial
  | succ n ih =>
      intro w₀ w h
      refine .view ?_
      split
      · next s l rest _ hp =>
        have taken : w₀.Later (w.requeue d rest) := h.trans (.requeue (contains_of_pop hp) rest)
        refine .modify (Run.Ends.attempt (handle_advances he l s w₀ _ taken) ?_)
        intro result w₁ handled
        refine (settlementOf_gives result w₁).bind fun {s w₂} ⟨hd, _⟩ => ?_
        have delivered := fireWith_advances ih l.promise.deferred s w₀ w₂
          (handled.trans (.of_deferreds hd))
        exact (Run.Gives.attempt delivered).discard.bind fun later => ih d w₀ _ later
      · exact h

theorem fire_advances (n : Nat) (d : DeferredId) (s : Settlement) :
    Advances (fire exec n d s) := by
  intro w₀ w h
  refine .view ?_
  split
  · exact h
  · exact fireWith_advances (notify_advances he n) d s w₀ w h

theorem listen_advances (n : Nat) (d : DeferredId) (callback errback : Option κ) :
    Advances (listen exec n d callback errback) := by
  intro w₀ w h
  refine .view ?_
  split
  · next contained =>
    let l := w.newListener callback errback
    have later : w₀.Later (w.enlist d l) := h.trans (.enlist contained l)
    refine .modifyGet (.view (.modify ?_))
    split
    · change (do notify exec n d; pure l.promise : Run κ σ Promise).Ends (w.enlist d l) _
      exact (notify_advances he n d w₀ _ later).bind (fun later => later) fun later => later
    · exact later
  · exact h.trans (.addDeferred ..)

theorem runCanceller_advances {cancel : DeferredId → Run κ σ Unit}
    (hc : ∀ p, Advances (cancel p)) (d : DeferredId) (canceller : Option (Canceller κ)) :
    Advances (runCanceller exec cancel d canceller) := by
  intro w₀ w h
  match canceller with
  | none => exact h
  | some (.client _) => exact he _ _ w₀ w h
  | some (.parent p) =>
      refine .view ?_
      split
      · exact h
      · exact (hc p w₀ w h).bind (fun later => later) fun later => later

theorem cancel_advances (n : Nat) (d : DeferredId) : Advances (cancel exec n d) := by
  induction n generalizing d with
  | zero => exact fun _ _ _ => trivial
  | succ n ih =>
      intro w₀ w h
      refine .view ?_
      split
      · exact h
      · refine (runCanceller_advances he ih d _ w₀ w h).bind ?_ fun later => later
        intro result w₁ later
        refine (reasonOf_gives result w₁).bind fun {reason w₂} ⟨hd, _⟩ => ?_
        exact abort_advances (notify_advances he n) d reason w₀ w₂ (later.trans (.of_deferreds hd))

end

end Deferred

/-! ## Whole runs -/

/-- What is not about deferred results leaves them as they are. -/
theorem laterLockstep (w₀ : World κ σ) :
    Lockstep (Heap.Step fun _ _ _ => True) (Run.Both fun w : World κ σ => w₀.Later w) where
  heap h := by rw [h.1]
  cursors h := by rw [h.1]
  names h := by rw [h.1]
  deferreds h := by rw [h.1]
  wellKnown h := by rw [h.1]
  step h _ := ⟨by rw [h.1], h.2.trans (.of_deferreds rfl)⟩
  move _ h := ⟨by rw [h.1], h.2.trans (.of_deferreds rfl)⟩
  draw _ h := ⟨by rw [h.1], h.2.trans (.of_deferreds rfl)⟩
  covers := Heap.Step.covers fun _ => trivial

theorem perform_advances {exec : Exec κ σ} (he : ∀ body invocation, Advances (exec body invocation))
    (n : Nat) (r : Request κ α) : Advances (perform exec n r) := by
  by_cases hr : r.concernsDeferreds = false
  · intro w₀
    have agree : Lockstep.ExecAgree (Run.Both fun w : World κ σ => w₀.Later w) exec exec :=
      fun body invocation => Run.keeps_iff_agree.1 (he body invocation w₀)
    exact Run.keeps_iff_agree.2 ((laterLockstep w₀).perform agree n hr
      (Request.within_step (fun _ => trivial) fun _ _ _ _ => trivial))
  · cases r with
    | newDeferred => exact fun w₀ w h => h.trans (.addDeferred ..)
    | fire => exact Deferred.fire_advances he _ _ _
    | listen => exact Deferred.listen_advances he _ _ _ _
    | cancel => exact Deferred.cancel_advances he _ _
    | release d => exact fun w₀ w h => h.trans (.release w d)
    | _ => exact absurd rfl hr

/-- Client code loses no outcome, whatever it does. -/
theorem execute_advances (client : Client κ σ) (n : Nat) (body : Body κ) (invocation : Invocation) :
    Advances (execute client n body invocation) := by
  induction n generalizing body invocation with
  | zero => exact fun _ _ _ => trivial
  | succ n ih =>
      intro w₀
      have agree : Lockstep.ExecAgree (Run.Both fun w : World κ σ => w₀.Later w) (execute client n)
          (execute client n) := fun body invocation => Run.keeps_iff_agree.1 (ih body invocation w₀)
      refine Run.keeps_iff_agree.2 ((laterLockstep w₀).enter (fun code invocation => ?_) agree _ _)
      rw [← Program.within_self (client code invocation)]
      exact (laterLockstep w₀).runWith (Q := fun _ => True) (fun h => by rw [h.1])
        (fun _ h => ⟨by rw [h.1], h.2.trans (.of_deferreds rfl)⟩)
        (fun {_ r} _ => Run.keeps_iff_agree.1 (perform_advances ih n r w₀)) _ (Program.all_true _)

/-! ## Cancellation -/

/-- What a cancellation leaves behind when the canceller gave `result` and left `w`: the deferred
has fired, in the way that the canceller has fired it, or else with what the canceller gave. -/
structure World.Finishes (w : World κ σ) (d : DeferredId) (result : Value) (w' : World κ σ) :
    Prop where
  fired : w'.Fired d
  stands {s : Settlement} : (w.deferred d).outcome = some s → (w'.deferred d).outcome = some s
  given : ¬ w.Fired d → result ≠ .undefined → (w'.deferred d).outcome = some (.error result)
  reified : ¬ w.Fired d → result = .undefined → ∃ o h, w.heap.contains o = false ∧
    Run.reify .cancelled w = .value (.object o) { w with heap := h } ∧
    h.ShowsError o "Error" "cancelled" ∧ (w'.deferred d).outcome = some (.error (.object o))

/-- What the canceller of `d` gives, and the world that it leaves. -/
inductive World.CancellerGives (exec : Exec κ σ) (n : Nat) (d : DeferredId) (w : World κ σ) :
    Value → World κ σ → Prop where
  /-- There is none. -/
  | none (absent : (w.deferred d).canceller = none) : CancellerGives exec n d w .undefined w
  /-- It is client code, which gets the deferred. -/
  | client {code : κ} {v : Value} {w' : World κ σ}
      (given : (w.deferred d).canceller = some (.client code))
      (ran : exec (.client code) (.cancel d) w = .value v w') : CancellerGives exec n d w v w'
  /-- It cancels the deferred that this one is chained to, and has nothing to give. -/
  | parent {p : DeferredId} {w' : World κ σ} (bound : w.Bound d p)
      (ran : perform exec n (.cancel p) w = .value () w') : CancellerGives exec n d w .undefined w'
  /-- Nothing else refers to the deferred that this one is chained to. -/
  | released {p : DeferredId} (chained : w.Chained d p) (gone : w.Released p) :
      CancellerGives exec n d w .undefined w

namespace Deferred

variable {exec : Exec κ σ} {w w' : World κ σ} {d : DeferredId}

theorem gives_of_runCanceller {n : Nat} {result : Value}
    (h : runCanceller exec (cancel exec n) d (w.deferred d).canceller w = .value result w') :
    w.CancellerGives exec n d result w' := by
  match given : (w.deferred d).canceller with
  | none =>
      rw [given] at h
      cases h
      exact .none given
  | some (.client code) =>
      rw [given] at h
      exact .client given h
  | some (.parent p) =>
      rw [given, runCanceller_parent] at h
      split at h
      · next gone =>
        cases h
        exact .released given gone
      · next alive =>
        obtain ⟨_, _, ran, same⟩ := Run.bind_eq_value h
        cases same
        exact .parent ⟨given, alive⟩ ran

theorem fire_of_fired (hd : w.Fired d) (hu : (w.deferred d).isChained = false) (n : Nat)
    (s : Settlement) : fire exec n d s w = .fault .alreadyFired w := by
  have fired : (w.deferred d).isFired = true := hd
  rw [fire, Run.view_bind, if_neg (by simp [hu]), fireWith, Run.view_bind, if_pos fired]
  rfl

theorem abort_of_not_fired {notify : DeferredId → Run κ σ Unit} (hd : ¬ w.Fired d)
    (reason : Value) : abort notify d reason w = notify d (w.settle d (.error reason)) := by
  have unfired : ¬ (w.deferred d).isFired = true := hd
  rw [abort, Run.view_bind, if_neg unfired]
  rfl

/-- The outcome that a cancellation sets stays while the listeners are told. -/
theorem outcome_of_abort {notify : DeferredId → Run κ σ Unit} (hn : ∀ d, Advances (notify d))
    (hd : ¬ w.Fired d) {reason : Value} (h : abort notify d reason w = .value () w') :
    (w'.deferred d).outcome = some (.error reason) := by
  have contained := World.contains_of_not_fired hd
  rw [abort_of_not_fired hd] at h
  have later : (w.settle d (.error reason)).Later w' := (hn d _ _ (.refl _)).of_value h
  refine later.outcome (by rwa [World.containsDeferred_settle]) ?_
  rw [World.settle, World.deferred_setDeferred_self _ contained]

theorem finishes (he : ∀ body invocation, Advances (exec body invocation)) {n : Nat}
    {result : Value}
    (h : (do abort (notify exec n) d (← reasonOf result) : Run κ σ Unit) w = .value () w') :
    w.Finishes d result w' := by
  obtain ⟨reason, w₁, reasoned, ran⟩ := Run.bind_eq_value h
  obtain ⟨same, -⟩ : w₁.deferreds = w.deferreds ∧ w₁.client = w.client := by
    obtain ⟨_, _, same⟩ := (reasonOf_gives result w).of_value reasoned
    exact same
  have deferred := World.deferred_congr same d
  have unfired (hd : ¬ w.Fired d) : ¬ w₁.Fired d := by rwa [World.Fired, deferred]
  have written (hd : ¬ w.Fired d) : (w'.deferred d).outcome = some (.error reason) :=
    outcome_of_abort (notify_advances he n) (unfired hd) ran
  have stands {s : Settlement} (ho : (w.deferred d).outcome = some s) :
      (w'.deferred d).outcome = some s := by
    have fired : w₁.Fired d := Option.isSome_iff_exists.2 ⟨s, by rw [deferred, ho]⟩
    rw [abort_of_fired fired] at ran
    cases ran
    rw [deferred, ho]
  exact {
    fired := by
      by_cases hd : w.Fired d
      · obtain ⟨s, hs⟩ := Option.isSome_iff_exists.1 hd
        exact Option.isSome_iff_exists.2 ⟨s, stands hs⟩
      · exact Option.isSome_iff_exists.2 ⟨_, written hd⟩
    stands
    given := fun hd hr => by
      rw [reasonOf, if_neg hr] at reasoned
      cases reasoned
      exact written hd
    reified := fun hd hr => by
      rw [reasonOf, if_pos hr, Run.reify_eq] at reasoned
      cases reasoned
      exact ⟨_, _, w.heap.contains_next, rfl, .ofFault w.heap .cancelled, written hd⟩ }

theorem cancel_value (he : ∀ body invocation, Advances (exec body invocation)) {n : Nat}
    (h : cancel exec (n + 1) d w = .value () w') :
    ¬ w.Fired d ∧ ∃ result w₁,
      w.CancellerGives exec n d result w₁ ∧ w₁.Finishes d result w' := by
  have unfired : ¬ w.Fired d := by
    intro hd
    rw [cancel_of_fired hd] at h
    cases h
  rw [cancel_of_not_fired unfired] at h
  obtain ⟨result, w₁, ran, finish⟩ := Run.bind_eq_value h
  exact ⟨unfired, result, w₁, gives_of_runCanceller ran, finishes he finish⟩

end Deferred

open Deferred in
/-- An outcome is written once.  No operation changes one, from whatever world it starts, and none
changes between any two moments of a recorded run.  A fired deferred refuses to be fired or
cancelled, and nothing changes.  A cancellation that succeeds leaves the deferred fired as its
canceller decides, or with what it gave; one fails if the canceller does, and leaves the world as
the client code left it that failed. -/
theorem outcome_writtenOnce (client : Client κ σ) (m : Nat) :
    (∀ (n : Nat) {α : Type} (r : Request κ α) (w : World κ σ),
      ∀ w' ∈ (perform (execute client m) n r w).world?, w.Later w') ∧
    (∀ (p : Program κ σ) (source : NameSource) (s : σ),
      (p.record client m (World.boot source s).remember).Agree Recorded.Forgets
        (p.run client m (World.boot source s)) ∧
      ∀ w ∈ (p.record client m (World.boot source s).remember).world?,
        ∀ x before, x :: before <:+ w.history → ∀ y ∈ before, y.world.Later x.world) ∧
    (Fault.alreadyFired.kind = .state ∧ Fault.alreadyFired.message = "already fired" ∧
      Fault.alreadyFinished.kind = .state ∧ Fault.alreadyFinished.message = "already finished") ∧
    ∀ (n : Nat) (d : DeferredId) (w : World κ σ),
      let cancelled := perform (execute client m) (n + 1) (.cancel d) w
      (w.Fired d → cancelled = .fault .alreadyFinished w ∧
        ((w.deferred d).isChained = false →
          ∀ s, perform (execute client m) n (.fire d s) w = .fault .alreadyFired w)) ∧
      (∀ w', cancelled = .value () w' → ¬ w.Fired d ∧ ∃ result w₁,
        w.CancellerGives (execute client m) n d result w₁ ∧ w₁.Finishes d result w') ∧
      (¬ w.Fired d → ∀ f w', cancelled = .fault f w' ↔
        w.CancellerFails (execute client m) n d f w') ∧
      ∀ f w', cancelled = .fault f w' →
        w.CancelFails (execute client m) d f w' ∧
        ((∀ e k code v, w.Descends e d k → (w.deferred e).canceller = some (.client code) →
            execute client m (.client code) (.cancel e) w = .fault f v →
            v.deferreds = w.deferreds) → w'.deferreds = w.deferreds) := by
  have advances := execute_advances client m
  refine ⟨fun n _ r w => ((perform_advances advances n r) w w (.refl w)).world?,
    fun p source s => ⟨p.forgets_record client m rfl, ?_⟩, ⟨rfl, rfl, rfl, rfl⟩,
    fun n d w => ⟨?_, ?_, fun hd f w' => cancel_eq_fault_iff hd n, ?_⟩⟩
  · intro w hw x before h y hy
    have steady := p.record_steady client m source s w hw
    exact (steady.lawful h).2.kept hy
  · intro hd
    exact ⟨cancel_of_fired hd n, fun hu s => fire_of_fired hd hu n s⟩
  · intro w' h
    exact cancel_value advances h
  · intro f w' h
    obtain ⟨e, k, above, why⟩ := cancel_fails h
    refine ⟨⟨e, k, above, why⟩, fun untouched => ?_⟩
    rcases why with ⟨-, -, rfl⟩ | ⟨code, hk, failed⟩
    · rfl
    · exact untouched e k code w' above hk failed

end Prototypal
