import Prototypal.Proofs.Deferred.Cancellation
import Prototypal.Proofs.Deferred.Runs

/-!
# Why an operation on deferred results fails

What handlers do makes no operation fail.  Firing and cancelling fail on a deferred that has fired,
and cancelling as the client code does that cancels.
-/

namespace Prototypal

variable {κ σ : Type}

/-- How the canceller of `d` fails, and the world that it leaves. -/
inductive World.CancellerFails (exec : Exec κ σ) (n : Nat) (d : DeferredId) (w : World κ σ) :
    Fault → World κ σ → Prop where
  | client {code : κ} {f : Fault} {w' : World κ σ}
      (given : (w.deferred d).canceller = some (.client code))
      (ran : exec (.client code) (.cancel d) w = .fault f w') : CancellerFails exec n d w f w'
  | parent {p : DeferredId} {f : Fault} {w' : World κ σ} (bound : w.Bound d p)
      (ran : perform exec n (.cancel p) w = .fault f w') : CancellerFails exec n d w f w'

/-- Why cancelling `d` fails: on the way up from it there is a deferred that has fired, or one whose
canceller is client code that fails. -/
def World.CancelFails (exec : Exec κ σ) (d : DeferredId) (w : World κ σ) (f : Fault)
    (w' : World κ σ) : Prop :=
  ∃ e k, w.Descends e d k ∧ (w.Fired e ∧ f = .alreadyFinished ∧ w' = w ∨
    ∃ code, (w.deferred e).canceller = some (.client code) ∧
      exec (.client code) (.cancel e) w = .fault f w')

namespace Deferred

variable {exec : Exec κ σ} {w w' : World κ σ} {d : DeferredId}

/-! ## Telling and listening -/

/-- Telling listeners never fails, whatever their handlers do. -/
theorem notify_succeeds (n : Nat) (d : DeferredId) :
    (notify exec n d).Gives w fun _ _ => True := by
  induction n generalizing d w with
  | zero => trivial
  | succ n ih =>
      refine .view ?_
      split
      · next s l rest _ _ =>
        refine .modify ((Run.Gives.attempt .trivial).bind fun {result _} _ => ?_)
        refine (settlementOf_gives result _).bind fun _ => ?_
        exact (Run.Gives.attempt .trivial).discard.bind fun _ => ih d
      · exact ⟨(), rfl, trivial⟩

theorem fire_fault (n : Nat) (d : DeferredId) (s : Settlement) :
    (fire exec n d s).Ends w fun r w' =>
      ∀ f, r = .error f → f = .alreadyFired ∧ w.Fired d ∧ w' = w := by
  refine .view ?_
  split
  · exact nofun
  · refine .view ?_
    split
    · next fired =>
      intro f hf
      cases hf
      exact ⟨rfl, fired, rfl⟩
    · refine .modify (Run.Ends.mono (notify_succeeds n d) fun ⟨_, hr, _⟩ f hf => ?_)
      cases hr.symm.trans hf

/-- Registering handlers never fails. -/
theorem listen_succeeds (n : Nat) (d : DeferredId) (callback errback : Option κ) :
    (listen exec n d callback errback).Gives w fun _ _ => True := by
  refine .view ?_
  split
  · refine .modifyGet (.view (.modify ?_))
    split
    · exact (notify_succeeds n d).bind fun _ => ⟨_, rfl, trivial⟩
    · exact ⟨_, rfl, trivial⟩
  · exact ⟨_, rfl, trivial⟩

/-- Once the canceller has given its result, a cancellation succeeds. -/
theorem finish_succeeds (n : Nat) (d : DeferredId) (result : Value) :
    (do abort (notify exec n) d (← reasonOf result)).Gives w fun _ _ => True := by
  refine (reasonOf_gives result w).bind fun _ => .view ?_
  split
  · exact ⟨(), rfl, trivial⟩
  · exact .modify (notify_succeeds n d)

/-! ## Cancelling -/

/-- The canceller of a chained deferred looks whether anything refers to the other. -/
theorem runCanceller_parent {p : DeferredId} (n : Nat) :
    runCanceller exec (cancel exec n) d (some (.parent p)) w =
      if (w.deferred p).released then .value .undefined w
      else (do cancel exec n p; pure .undefined : Run κ σ Value) w := by
  rw [runCanceller, Run.view_bind]
  split <;> rfl

theorem runCanceller_eq_fault_iff {n : Nat} {f : Fault} :
    runCanceller exec (cancel exec n) d (w.deferred d).canceller w = .fault f w' ↔
      w.CancellerFails exec n d f w' := by
  constructor
  · intro h
    match given : (w.deferred d).canceller with
    | none =>
        rw [given] at h
        cases h
    | some (.client code) =>
        rw [given] at h
        exact .client given h
    | some (.parent p) =>
        rw [given, runCanceller_parent] at h
        split at h
        · cases h
        · next alive =>
          rcases Run.bind_eq_fault h with ran | ⟨_, _, -, ran⟩
          · exact .parent ⟨given, alive⟩ ran
          · cases ran
  · intro h
    cases h with
    | client given ran =>
        rw [given]
        exact ran
    | @parent p _ _ bound ran =>
        have chained : (w.deferred d).canceller = some (.parent p) := bound.1
        have alive : ¬ (w.deferred p).released = true := bound.2
        rw [chained, runCanceller_parent, if_neg alive]
        exact Run.bind_of_fault ran

theorem cancel_of_not_fired (hd : ¬ w.Fired d) (n : Nat) :
    cancel exec (n + 1) d w =
      (do let result ← runCanceller exec (cancel exec n) d (w.deferred d).canceller
          abort (notify exec n) d (← reasonOf result) : Run κ σ Unit) w := by
  have unfired : ¬ (w.deferred d).isFired = true := hd
  rw [cancel, Run.view_bind, if_neg unfired]

/-- A cancellation fails as its canceller does. -/
theorem cancel_eq_fault_iff (hd : ¬ w.Fired d) (n : Nat) {f : Fault} :
    cancel exec (n + 1) d w = .fault f w' ↔ w.CancellerFails exec n d f w' := by
  rw [cancel_of_not_fired hd, ← runCanceller_eq_fault_iff]
  refine ⟨fun h => ?_, Run.bind_of_fault⟩
  rcases Run.bind_eq_fault h with h | ⟨result, w₁, -, h⟩
  · exact h
  · obtain ⟨_, hr, -⟩ := (finish_succeeds n d result).of_fault h
    cases hr

theorem cancel_fails {n : Nat} {f : Fault} (h : cancel exec n d w = .fault f w') :
    w.CancelFails exec d f w' := by
  induction n generalizing d with
  | zero => cases h
  | succ n ih =>
      by_cases hd : w.Fired d
      · rw [cancel_of_fired hd] at h
        cases h
        exact ⟨d, 0, .root, .inl ⟨hd, rfl, rfl⟩⟩
      · rw [cancel_eq_fault_iff hd] at h
        cases h with
        | @client code _ _ given ran => exact ⟨d, 0, .root, .inr ⟨code, given, ran⟩⟩
        | parent bound ran =>
            obtain ⟨e, k, above, why⟩ := ih ran
            exact ⟨e, k + 1, .promise bound above, why⟩

end Deferred

end Prototypal
