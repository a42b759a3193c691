import Prototypal.Proofs.Deferred.Faults

/-!
# What programs may rely on

No result of a handler is lost, and every listener is told once and in order, in every run of every
program.
-/

namespace Prototypal

variable {κ σ : Type}

/-! ## How operations begin -/

/-- Handlers are registered on `d`: their listener waits behind all others, and its promise is that
of a new deferred, which is chained to `d`. -/
structure World.Registers (w : World κ σ) (d : DeferredId) (callback errback : Option κ)
    (promise : Promise) (w' : World κ σ) : Prop where
  new : w.containsDeferred promise.deferred = false
  chained : w'.Chained promise.deferred d
  unfired : ¬ w'.Fired promise.deferred
  queue : w'.queue d = w.queue d ++ [⟨promise, callback, errback⟩]
  outcome : (w'.deferred d).outcome = (w.deferred d).outcome
  others {e : DeferredId} : w.containsDeferred e = true → e ≠ d → w'.deferred e = w.deferred e

/-- Firing gives the deferred the very outcome, and registering puts the very handlers into its
queue, before any listener is told. -/
structure World.Begins (exec : Exec κ σ) (n : Nat) (d : DeferredId) (w : World κ σ) : Prop where
  fire {s : Settlement} : ¬ w.Fired d → (∀ e, ¬ w.Chained d e) →
    perform exec n (.fire d s) w = Deferred.notify exec n d (w.settle d s)
  listen (callback errback : Option κ) : w.containsDeferred d = true →
    ∃ promise w', w.Registers d callback errback promise w' ∧
      perform exec n (.listen d callback errback) w =
        if (w.deferred d).isFired then
          (do Deferred.notify exec n d; pure promise : Run κ σ Promise) w'
        else .value promise w'

theorem World.registers_enlist {w : World κ σ} {d : DeferredId}
    (hd : w.containsDeferred d = true) (callback errback : Option κ) :
    let l := w.newListener callback errback
    w.Registers d callback errback l.promise (w.enlist d l) where
  new := not_containsDeferred_addDeferred w none
  chained := (chained_enlist hd rfl).2 (.inl ⟨rfl, rfl⟩)
  unfired fired := ((fired_enlist hd rfl).1 fired).1 rfl
  queue := by rw [queue_enlist hd, if_pos rfl]; rfl
  outcome := by
    rw [enlist, outcome_requeue (contains_addDeferred _ hd),
      deferred_addDeferred_of_ne _ _ (ne_new _ hd)]
  others {e} he ne := by
    rw [enlist, requeue, deferred_setDeferred_of_ne _ _ ne,
      deferred_addDeferred_of_ne _ _ (ne_new _ he)]

theorem World.begins (exec : Exec κ σ) (n : Nat) (d : DeferredId) (w : World κ σ) :
    w.Begins exec n d where
  fire {s} fired unchained := by
    have unchained : ¬ (w.deferred d).isChained = true :=
      mt isChained_iff.1 (not_exists.2 unchained)
    have unfired : ¬ (w.deferred d).isFired = true := fired
    change Deferred.fire exec n d s w = _
    rw [Deferred.fire, Run.view_bind, if_neg unchained, Deferred.fireWith, Run.view_bind,
      if_neg unfired]
    rfl
  listen callback errback contained := by
    have old : (w.addDeferred (some (.parent d))).2.deferred d = w.deferred d :=
      deferred_addDeferred_of_ne _ _ (ne_new _ contained)
    refine ⟨_, _, registers_enlist contained callback errback, ?_⟩
    change Deferred.listen exec n d callback errback w = _
    rw [Deferred.listen, Run.view_bind, if_pos contained]
    let l := w.newListener callback errback
    change (do if ((w.addDeferred (some (.parent d))).2.deferred d).isFired then
                 Deferred.notify exec n d
               pure l.promise : Run κ σ Promise) (w.enlist d l) = _
    rw [old]
    split <;> rfl

/-! ## Runs -/

theorem Steady.remember {client : Client κ σ} {w : World κ σ} (hd : w.deferreds = #[]) :
    Steady client [] w.remember where
  toSound := .empty hd rfl
  calm := by
    intro m hm
    cases hm

/-- A recorded run keeps the invariant from its first world on, and leaves no loop open. -/
theorem Program.record_steady (client : Client κ σ) (fuel : Nat) (p : Program κ σ)
    (source : NameSource) (s : σ) :
    ∀ w ∈ (p.record client fuel (World.boot source s).remember).world?, Steady client [] w := by
  intro w hw
  have start : Steady client [] (World.boot source s : World κ σ).remember :=
    .remember (World.deferreds_boot source s)
  exact ((p.record_orderly client fuel start).world? w hw).1

/-- No result of a handler is lost.  Along every recorded run, whose history can be forgotten, the
laws of delivery hold at every moment; and when the run ends, a chained deferred has fired if and
only if the one that it is chained to has, as long as that one was not released.  The handlers are
those that were registered, and the outcome is the one that was given. -/
theorem Program.record_delivers (client : Client κ σ) (fuel : Nat) (p : Program κ σ)
    (source : NameSource) (s : σ) :
    (p.record client fuel (World.boot source s).remember).Agree Recorded.Forgets
      (p.run client fuel (World.boot source s)) ∧
    (∀ w ∈ (p.record client fuel (World.boot source s).remember).world?,
      (∀ m before, m :: before <:+ w.history → Delivers client m before) ∧
      ∀ c d, w.Bound c d → (w.Fired c ↔ w.Fired d)) ∧
    ∀ (exec : Exec κ σ) (n : Nat) (d : DeferredId) (w : World κ σ), w.Begins exec n d := by
  refine ⟨p.forgets_record client fuel rfl, fun w hw => ?_, fun exec n d w => w.begins exec n d⟩
  have steady := p.record_steady client fuel source s w hw
  refine ⟨fun m before h => (steady.lawful h).1, fun c d hb => ⟨steady.wired.parentFired hb, ?_⟩⟩
  intro hf
  refine Classical.byContradiction fun hu => ?_
  rcases steady.wired.waiting ⟨hb.1, hu⟩ with ⟨l, hl, -⟩ | hm
  · cases steady.wired.drained hf (List.ne_nil_of_mem hl)
  · cases hm

/-- Listeners are told once and in order.  Along every recorded run, whose history can be forgotten,
the laws of draining hold at every moment; and when the run ends, whoever was registered on a fired
deferred has been taken, and has come by its result.  The handlers are those that were registered,
and the outcome is the one that was given.  No handler makes an operation fail: firing fails only on
a fired deferred, registering never, and cancelling only if it comes upon a fired deferred, or else
as the client code that cancels does. -/
theorem Program.record_drains (client : Client κ σ) (fuel : Nat) (p : Program κ σ)
    (source : NameSource) (s : σ) :
    (p.record client fuel (World.boot source s).remember).Agree Recorded.Forgets
      (p.run client fuel (World.boot source s)) ∧
    (∀ w ∈ (p.record client fuel (World.boot source s).remember).world?,
      (∀ m before, m :: before <:+ w.history → Drains client m before) ∧
      ∀ d, w.Fired d → w.queue d = [] ∧ w.history.takenFrom d = w.history.registeredOn d ∧
        ∀ l ∈ w.history.registeredOn d, ∃ m ∈ w.history, ∃ result, m.event = .ended d l result) ∧
    ∀ (exec : Exec κ σ) (n : Nat) (d : DeferredId) (w : World κ σ), w.Begins exec n d ∧
      ∀ (w' : World κ σ) (f : Fault),
      (∀ s, perform exec n (.fire d s) w = .fault f w' →
        f = .alreadyFired ∧ w.Fired d ∧ w' = w) ∧
      (∀ callback errback, perform exec n (.listen d callback errback) w ≠ .fault f w') ∧
      (perform exec n (.cancel d) w = .fault f w' → w.CancelFails exec d f w') := by
  refine ⟨p.forgets_record client fuel rfl, fun w hw => ?_, fun exec n d w =>
    ⟨w.begins exec n d, fun w' f => ⟨?_, ?_, ?_⟩⟩⟩
  · have steady := p.record_steady client fuel source s w hw
    refine ⟨fun m before h => (steady.lawful h).2, fun d hf => ?_⟩
    have idle : w.queue d = [] :=
      Classical.byContradiction fun hq => by cases steady.wired.drained hf hq
    have told : w.history.takenFrom d = w.history.registeredOn d := by
      rw [steady.booked.account d, idle, List.append_nil]
    refine ⟨idle, told, fun l hl => ?_⟩
    exact (steady.finished d l (told ▸ hl)).resolve_right fun hm => nomatch hm
  · intro s hs
    exact (Deferred.fire_fault n d s).of_fault hs f rfl
  · intro callback errback hl
    obtain ⟨_, hr, -⟩ := (Deferred.listen_succeeds n d callback errback).of_fault hl
    cases hr
  · intro hc
    exact Deferred.cancel_fails hc

end Prototypal
