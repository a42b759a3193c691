import Prototypal.World

/-!
# How deferred results hang together

A chained deferred waits in the queue of the one it is chained to, or for the handler that a loop
over that queue is running.  It never fires first, unless nothing else refers to that one any more.
-/

namespace Prototypal

variable {κ σ : Type}

/-- An open loop over the listeners of a deferred, and the chained deferred that waits for what the
running handler makes of the outcome. -/
structure Frame where
  deferred : DeferredId
  held : Option DeferredId
deriving DecidableEq

/-! ## What matters of a world -/

namespace World

/-- The listeners that still wait at a deferred. -/
def queue (w : World κ σ) (d : DeferredId) : List (Listener κ) := (w.deferred d).listeners.toList

/-- Whether `c` is the deferred of a promise that `d` gave. -/
def Chained (w : World κ σ) (c d : DeferredId) : Prop :=
  (w.deferred c).canceller = some (.parent d)

/-- Whether nothing refers to a deferred any more, but for what is chained to it. -/
def Released (w : World κ σ) (d : DeferredId) : Prop := (w.deferred d).released = true

/-- Whether cancelling `c` cancels `d`: it is chained to it, and something else refers to that. -/
def Bound (w : World κ σ) (c d : DeferredId) : Prop := w.Chained c d ∧ ¬ w.Released d

/-- Whether a deferred has fired. -/
def Fired (w : World κ σ) (d : DeferredId) : Prop := (w.deferred d).isFired = true

/-- Whether `c` is chained to `d` and still without an outcome. -/
def Awaits (w : World κ σ) (c d : DeferredId) : Prop := w.Chained c d ∧ ¬ w.Fired c

/-- Whether `c` is chained to `d` and has no outcome of its own: only if nothing else refers to `d`,
it may have been cancelled alone. -/
def Heeds (w : World κ σ) (c d : DeferredId) : Prop :=
  w.Chained c d ∧ (w.Fired c → w.Released d)

/-- The world after a deferred got its outcome. -/
def settle (w : World κ σ) (d : DeferredId) (s : Settlement) : World κ σ :=
  w.setDeferred d { w.deferred d with outcome := some s }

/-- The world after the last reference to a deferred is gone. -/
def release (w : World κ σ) (d : DeferredId) : World κ σ :=
  w.setDeferred d { w.deferred d with released := true }

/-- The world after a change of the listeners that wait at a deferred. -/
def requeue (w : World κ σ) (d : DeferredId) (listeners : Queue (Listener κ)) : World κ σ :=
  w.setDeferred d { w.deferred d with listeners }

/-- The listener of handlers that are registered now: its promise is of a new deferred. -/
def newListener (w : World κ σ) (callback errback : Option κ) : Listener κ :=
  ⟨⟨⟨w.deferreds.size⟩⟩, callback, errback⟩

/-- The world after a new listener was put into the queue of a deferred. -/
def enlist (w : World κ σ) (d : DeferredId) (l : Listener κ) : World κ σ :=
  let w' := (w.addDeferred (some (.parent d))).2
  w'.requeue d ((w'.deferred d).listeners.push l)

variable {w : World κ σ} {c d e : DeferredId}

/-- A reference to no deferred stands for one that has fired and is chained to none. -/
theorem fired_of_not_contains (hd : w.containsDeferred d = false) : w.Fired d := by
  unfold Fired
  rw [deferred_of_not_contains hd]
  rfl

theorem contains_of_not_fired (h : ¬ w.Fired d) : w.containsDeferred d = true :=
  eq_true_of_ne_false fun hd => h (fired_of_not_contains hd)

theorem isChained_iff : (w.deferred d).isChained = true ↔ ∃ e, w.Chained d e := by
  unfold Deferred.isChained Chained
  split
  · next e hc => exact ⟨fun _ => ⟨e, hc⟩, fun _ => rfl⟩
  · next hc => exact ⟨nofun, fun ⟨e, he⟩ => absurd he (hc e)⟩

/-- The canceller that client code gives is not that of a chained deferred. -/
theorem map_client_ne_parent (canceller : Option κ) (d : DeferredId) :
    canceller.map Canceller.client ≠ some (.parent d) := by
  cases canceller <;> nofun

/-- There is no listener to be taken from a fired deferred only if none waits. -/
theorem queue_eq_nil (fired : w.Fired d)
    (done : ∀ s l rest, (w.deferred d).outcome = some s →
      (w.deferred d).listeners.pop? = some (l, rest) → False) : w.queue d = [] := by
  obtain ⟨s, hs⟩ := Option.isSome_iff_exists.1 fired
  refine Queue.pop?_eq_none_iff.1 (Option.eq_none_iff_forall_ne_some.2 ?_)
  exact fun ⟨l, rest⟩ hp => done s l rest hs hp

theorem contains_of_chained (h : w.Chained c d) : w.containsDeferred c = true := by
  refine eq_true_of_ne_false fun hc => ?_
  unfold Chained at h
  rw [deferred_of_not_contains hc] at h
  cases h

theorem contains_of_released (h : w.Released d) : w.containsDeferred d = true := by
  refine eq_true_of_ne_false fun hd => ?_
  rw [Released, deferred_of_not_contains hd] at h
  cases h

theorem deferred_setDeferred (x : Deferred κ) (hd : w.containsDeferred d = true)
    (e : DeferredId) : (w.setDeferred d x).deferred e = if e = d then x else w.deferred e := by
  by_cases he : e = d
  · rw [if_pos he, he, deferred_setDeferred_self x hd]
  · rw [if_neg he, deferred_setDeferred_of_ne w x he]

theorem containsDeferred_settle (s : Settlement) :
    (w.settle d s).containsDeferred e = w.containsDeferred e :=
  containsDeferred_setDeferred ..

theorem containsDeferred_requeue (listeners : Queue (Listener κ)) :
    (w.requeue d listeners).containsDeferred e = w.containsDeferred e :=
  containsDeferred_setDeferred ..

theorem containsDeferred_release : (w.release d).containsDeferred e = w.containsDeferred e :=
  containsDeferred_setDeferred ..

/-- What a release leaves of a deferred: all of it, but that it may be released now. -/
theorem deferred_release : ∃ released, (w.release d).deferred e = { w.deferred e with released } ∧
    (w.Released e → released = true) := by
  by_cases he : e = d
  · subst he
    cases hd : w.containsDeferred e with
    | true => exact ⟨true, deferred_setDeferred_self _ hd, fun _ => rfl⟩
    | false =>
        refine ⟨false, ?_, fun gone => ?_⟩
        · rw [deferred_of_not_contains hd,
            deferred_of_not_contains (containsDeferred_release.trans hd)]
          rfl
        · rwa [Released, deferred_of_not_contains hd] at gone
  · exact ⟨_, deferred_setDeferred_of_ne w _ he, id⟩

theorem chained_release : (w.release d).Chained c e ↔ w.Chained c e := by
  obtain ⟨_, same, -⟩ := deferred_release (w := w) (d := d) (e := c)
  rw [Chained, same, Chained]

theorem outcome_release : ((w.release d).deferred e).outcome = (w.deferred e).outcome := by
  obtain ⟨_, same, -⟩ := deferred_release (w := w) (d := d) (e := e)
  rw [same]

theorem fired_release : (w.release d).Fired e ↔ w.Fired e := by
  rw [Fired, Deferred.isFired, outcome_release, Fired, Deferred.isFired]

theorem queue_release : (w.release d).queue e = w.queue e := by
  obtain ⟨_, same, -⟩ := deferred_release (w := w) (d := d) (e := e)
  rw [queue, same, queue]

theorem Released.release (h : w.Released e) : (w.release d).Released e := by
  obtain ⟨_, same, gone⟩ := deferred_release (w := w) (d := d) (e := e)
  rw [Released, same]
  exact gone h

theorem released_release (h : (w.release d).Released e) : w.Released e ∨ e = d := by
  by_cases he : e = d
  · exact .inr he
  · rw [Released, release, deferred_setDeferred_of_ne w _ he] at h
    exact .inl h

theorem Heeds.awaits (h : w.Heeds c d) (hd : ¬ w.Released d) : w.Awaits c d :=
  ⟨h.1, mt h.2 hd⟩

theorem Awaits.heeds (h : w.Awaits c d) : w.Heeds c d := ⟨h.1, fun hf => absurd hf h.2⟩

section
variable (hd : w.containsDeferred d = true)
include hd

theorem fired_settle (s : Settlement) : (w.settle d s).Fired e ↔ e = d ∨ w.Fired e := by
  unfold Fired settle
  rw [deferred_setDeferred _ hd]
  split <;> simp_all [Deferred.isFired]

theorem chained_settle (s : Settlement) : (w.settle d s).Chained c e ↔ w.Chained c e := by
  unfold Chained settle
  rw [deferred_setDeferred _ hd]
  split <;> simp_all

theorem queue_settle (s : Settlement) : (w.settle d s).queue e = w.queue e := by
  unfold queue settle
  rw [deferred_setDeferred _ hd]
  split <;> simp_all

theorem released_settle (s : Settlement) : (w.settle d s).Released e ↔ w.Released e := by
  unfold Released settle
  rw [deferred_setDeferred _ hd]
  split <;> simp_all

theorem outcome_requeue (listeners : Queue (Listener κ)) :
    ((w.requeue d listeners).deferred e).outcome = (w.deferred e).outcome := by
  unfold requeue
  rw [deferred_setDeferred _ hd]
  split <;> simp_all

theorem fired_requeue (listeners : Queue (Listener κ)) :
    (w.requeue d listeners).Fired e ↔ w.Fired e := by
  unfold Fired requeue
  rw [deferred_setDeferred _ hd]
  split <;> simp_all [Deferred.isFired]

theorem chained_requeue (listeners : Queue (Listener κ)) :
    (w.requeue d listeners).Chained c e ↔ w.Chained c e := by
  unfold Chained requeue
  rw [deferred_setDeferred _ hd]
  split <;> simp_all

theorem released_requeue (listeners : Queue (Listener κ)) :
    (w.requeue d listeners).Released e ↔ w.Released e := by
  unfold Released requeue
  rw [deferred_setDeferred _ hd]
  split <;> simp_all

theorem queue_requeue (listeners : Queue (Listener κ)) :
    (w.requeue d listeners).queue e = if e = d then listeners.toList else w.queue e := by
  unfold queue requeue
  rw [deferred_setDeferred _ hd]
  split <;> rfl

end

section
variable (canceller : Option (Canceller κ))

/-- A deferred that was made before is not the new one. -/
theorem ne_new (he : w.containsDeferred e = true) : e ≠ (w.addDeferred canceller).1 := by
  rintro rfl
  rw [not_containsDeferred_addDeferred] at he
  cases he

theorem contains_addDeferred (he : w.containsDeferred e = true) :
    (w.addDeferred canceller).2.containsDeferred e = true := by
  rw [containsDeferred_addDeferred, he]
  rfl

theorem fired_addDeferred :
    (w.addDeferred canceller).2.Fired e ↔ e ≠ (w.addDeferred canceller).1 ∧ w.Fired e := by
  unfold Fired
  by_cases he : e = (w.addDeferred canceller).1
  · rw [he, deferred_addDeferred_self]
    simp [Deferred.fresh, Deferred.isFired]
  · rw [deferred_addDeferred_of_ne _ _ he]
    simp [he]

theorem chained_addDeferred :
    (w.addDeferred canceller).2.Chained e d ↔
      e = (w.addDeferred canceller).1 ∧ canceller = some (.parent d) ∨ w.Chained e d := by
  by_cases he : e = (w.addDeferred canceller).1
  · have absent : ¬ w.Chained e d := fun h => by
      have contained := contains_of_chained h
      rw [he, not_containsDeferred_addDeferred] at contained
      cases contained
    simp only [absent, or_false]
    unfold Chained
    rw [he, deferred_addDeferred_self]
    simp [Deferred.fresh]
  · unfold Chained
    rw [deferred_addDeferred_of_ne _ _ he]
    simp [he]

theorem released_addDeferred : (w.addDeferred canceller).2.Released e ↔ w.Released e := by
  unfold Released
  by_cases he : e = (w.addDeferred canceller).1
  · rw [he, deferred_addDeferred_self,
      deferred_of_not_contains (not_containsDeferred_addDeferred w canceller)]
    rfl
  · rw [deferred_addDeferred_of_ne _ _ he]

theorem queue_addDeferred : (w.addDeferred canceller).2.queue e = w.queue e := by
  unfold queue
  by_cases he : e = (w.addDeferred canceller).1
  · rw [he, deferred_addDeferred_self,
      deferred_of_not_contains (not_containsDeferred_addDeferred w canceller)]
    rfl
  · rw [deferred_addDeferred_of_ne _ _ he]

end

section
variable (hd : w.containsDeferred d = true) {l : Listener κ} {callback errback : Option κ}
  (hl : l = w.newListener callback errback)

include hl in
theorem ne_newListener (he : w.containsDeferred e = true) : e ≠ l.promise.deferred :=
  hl ▸ ne_new none he

theorem containsDeferred_enlist (he : w.containsDeferred e = true) :
    (w.enlist d l).containsDeferred e = true := by
  unfold enlist
  rw [containsDeferred_requeue]
  exact contains_addDeferred _ he

include hd

theorem queue_enlist : (w.enlist d l).queue e = if e = d then w.queue d ++ [l] else w.queue e := by
  unfold enlist
  rw [queue_requeue (contains_addDeferred _ hd), Queue.toList_push, queue_addDeferred]
  rw [show ((w.addDeferred _).2.deferred d).listeners.toList = w.queue d from queue_addDeferred _]

theorem released_enlist : (w.enlist d l).Released e ↔ w.Released e := by
  unfold enlist
  rw [released_requeue (contains_addDeferred _ hd), released_addDeferred]

include hl

theorem chained_enlist :
    (w.enlist d l).Chained c e ↔ c = l.promise.deferred ∧ e = d ∨ w.Chained c e := by
  subst hl
  unfold enlist
  rw [chained_requeue (contains_addDeferred _ hd), chained_addDeferred]
  simp [newListener, addDeferred, eq_comm]

theorem fired_enlist : (w.enlist d l).Fired e ↔ e ≠ l.promise.deferred ∧ w.Fired e := by
  subst hl
  unfold enlist
  rw [fired_requeue (contains_addDeferred _ hd), fired_addDeferred]
  rfl

/-- The new deferred has no outcome, and the others have theirs. -/
theorem outcome_enlist {s : Settlement} (he : (w.enlist d l).containsDeferred e = true)
    (ho : ((w.enlist d l).deferred e).outcome = some s) :
    w.containsDeferred e = true ∧ (w.deferred e).outcome = some s := by
  subst hl
  unfold enlist at he ho
  rw [containsDeferred_requeue, containsDeferred_addDeferred] at he
  rw [outcome_requeue (contains_addDeferred _ hd)] at ho
  have old : e ≠ (w.addDeferred (some (.parent d))).1 := by
    rintro rfl
    rw [deferred_addDeferred_self] at ho
    cases ho
  rw [deferred_addDeferred_of_ne _ _ old] at ho
  exact ⟨by simpa [old] using he, ho⟩

theorem Heeds.enlist (h : w.Heeds c e) : (w.enlist d l).Heeds c e where
  left := (chained_enlist hd hl).2 (.inr h.1)
  right hf := (released_enlist hd).2 (h.2 ((fired_enlist hd hl).1 hf).2)

theorem awaits_enlist :
    (w.enlist d l).Awaits c e ↔ c = l.promise.deferred ∧ e = d ∨ w.Awaits c e := by
  unfold Awaits
  rw [chained_enlist hd hl, fired_enlist hd hl]
  constructor
  · rintro ⟨new | hc, hf⟩
    · exact .inl new
    · exact .inr ⟨hc, fun hf' => hf ⟨ne_newListener hl (contains_of_chained hc), hf'⟩⟩
  · rintro (⟨rfl, rfl⟩ | ⟨hc, hf⟩)
    · exact ⟨.inl ⟨rfl, rfl⟩, fun hf => hf.1 rfl⟩
    · exact ⟨.inr hc, fun hf' => hf hf'.2⟩

end

end World

/-! ## The wiring -/

/-- How the deferred results of a world hang together while the loops `F` are open, the innermost
first. -/
structure Wired (F : List Frame) (w : World κ σ) : Prop where
  parent {c d : DeferredId} : w.Chained c d → w.containsDeferred d = true
  parentFired {c d : DeferredId} : w.Bound c d → w.Fired c → w.Fired d
  queued {d : DeferredId} {l : Listener κ} : l ∈ w.queue d → w.Heeds l.promise.deferred d
  queuedOnce (d : DeferredId) : ((w.queue d).map (·.promise.deferred)).Nodup
  /-- What has not fired is still to be told, or its handler is running. -/
  waiting {c d : DeferredId} :
    w.Awaits c d → (∃ l ∈ w.queue d, l.promise.deferred = c) ∨ ⟨d, some c⟩ ∈ F
  framed {f : Frame} : f ∈ F → w.containsDeferred f.deferred = true ∧ w.Fired f.deferred
  held {c d : DeferredId} :
    ⟨d, some c⟩ ∈ F → w.Heeds c d ∧ ∀ l ∈ w.queue d, l.promise.deferred ≠ c
  heldOnce : (F.filterMap (·.held)).Nodup
  /-- A fired deferred with waiting listeners is being told. -/
  drained {d : DeferredId} : w.Fired d → w.queue d ≠ [] → d ∈ F.map (·.deferred)

namespace World

/-- A deferred is chained to one other at most. -/
theorem Chained.unique {w : World κ σ} {c d e : DeferredId} (hd : w.Chained c d)
    (he : w.Chained c e) : d = e := by
  cases hd.symm.trans he
  rfl

end World

namespace Wired

variable {F G : List Frame} {w : World κ σ} {c d : DeferredId}

/-- A world without deferred results. -/
theorem empty (h : w.deferreds = #[]) : Wired [] w := by
  have inert (d : DeferredId) : w.deferred d = .inert :=
    World.deferred_of_not_contains (by simp [World.containsDeferred, h])
  have unchained {c d : DeferredId} : ¬ w.Chained c d := by
    simp [World.Chained, inert, Deferred.inert]
  have idle (d : DeferredId) : w.queue d = [] := by simp [World.queue, inert, Deferred.inert]
  exact {
    parent := fun h => absurd h unchained
    parentFired := fun h => absurd h.1 unchained
    queued := fun h => by rw [idle] at h; cases h
    queuedOnce := fun d => by rw [idle]; exact .nil
    waiting := fun h => absurd h.1 unchained
    framed := fun hm => by cases hm
    held := fun hm => by cases hm
    heldOnce := .nil
    drained := fun _ h => absurd (idle _) h }

/-- Nothing else of the world matters. -/
theorem congr {τ : Type} {w' : World κ τ} (h : Wired F w) (hd : w'.deferreds = w.deferreds) :
    Wired F w' := by
  obtain ⟨heap, cursors, deferreds, names, wellKnown, client⟩ := w
  obtain ⟨heap', cursors', deferreds', names', wellKnown', client'⟩ := w'
  cases hd
  exact ⟨h.parent, h.parentFired, h.queued, h.queuedOnce, h.waiting, h.framed, h.held, h.heldOnce,
    h.drained⟩

/-- The listeners of a fired deferred may be told at any time. -/
theorem enter (h : Wired F w) (hd : w.containsDeferred d = true) (hf : w.Fired d) :
    Wired (⟨d, none⟩ :: F) w where
  parent := h.parent
  parentFired := h.parentFired
  queued := h.queued
  queuedOnce := h.queuedOnce
  waiting hc := (h.waiting hc).imp id (List.mem_cons_of_mem _)
  framed hm := by
    rcases List.mem_cons.1 hm with rfl | hm
    · exact ⟨hd, hf⟩
    · exact h.framed hm
  held hm := by
    rcases List.mem_cons.1 hm with he | hm
    · cases he
    · exact h.held hm
  heldOnce := h.heldOnce
  drained hf hq := List.mem_cons_of_mem _ (h.drained hf hq)

/-- A loop ends when no listener is left. -/
theorem leave (h : Wired (⟨d, none⟩ :: F) w) (hq : w.queue d = []) : Wired F w where
  parent := h.parent
  parentFired := h.parentFired
  queued := h.queued
  queuedOnce := h.queuedOnce
  waiting hc := by
    refine (h.waiting hc).imp id fun hm => ?_
    rcases List.mem_cons.1 hm with he | hm
    · cases he
    · exact hm
  framed hm := h.framed (List.mem_cons_of_mem _ hm)
  held hm := h.held (List.mem_cons_of_mem _ hm)
  heldOnce := h.heldOnce
  drained hf hne := by
    rcases List.mem_cons.1 (h.drained hf hne) with rfl | hm
    · exact absurd hq hne
    · exact hm

/-- A loop takes the first listener and runs its handler. -/
theorem take {l : Listener κ} {rest : Queue (Listener κ)} (h : Wired (⟨d, none⟩ :: F) w)
    (hp : (w.deferred d).listeners.pop? = some (l, rest)) :
    Wired (⟨d, some l.promise.deferred⟩ :: F) (w.requeue d rest) := by
  obtain ⟨hd, fired⟩ := h.framed (List.mem_cons_self ..)
  have queue : w.queue d = l :: rest.toList := Queue.toList_of_pop? hp
  have awaits {c e : DeferredId} : (w.requeue d rest).Awaits c e ↔ w.Awaits c e :=
    and_congr (World.chained_requeue hd rest) (not_congr (World.fired_requeue hd rest))
  have heeds {c e : DeferredId} (h : w.Heeds c e) : (w.requeue d rest).Heeds c e :=
    ⟨(World.chained_requeue hd rest).2 h.1, fun hf =>
      (World.released_requeue hd rest).2 (h.2 ((World.fired_requeue hd rest).1 hf))⟩
  have sub {e : DeferredId} {l' : Listener κ} (hl : l' ∈ (w.requeue d rest).queue e) :
      l' ∈ w.queue e := by
    rw [World.queue_requeue hd] at hl
    split at hl
    · next he => rw [he, queue]; exact List.mem_cons_of_mem _ hl
    · exact hl
  have once := h.queuedOnce d
  rw [queue, List.map_cons, List.nodup_cons] at once
  have first : w.Heeds l.promise.deferred d := h.queued (queue ▸ List.mem_cons_self ..)
  exact {
    parent := fun hc => by
      rw [World.containsDeferred_requeue]
      exact h.parent ((World.chained_requeue hd rest).1 hc)
    parentFired := fun hc hf => (World.fired_requeue hd rest).2 <| h.parentFired
      ⟨(World.chained_requeue hd rest).1 hc.1, mt (World.released_requeue hd rest).2 hc.2⟩
      ((World.fired_requeue hd rest).1 hf)
    queued := fun hl => heeds (h.queued (sub hl))
    queuedOnce := fun e => by
      rw [World.queue_requeue hd]
      split
      · exact once.2
      · exact h.queuedOnce e
    waiting := fun {c e} hc => by
      rcases h.waiting (awaits.1 hc) with ⟨l', hl, rfl⟩ | hm
      · by_cases he : e = d
        · subst he
          rw [queue] at hl
          rcases List.mem_cons.1 hl with rfl | hl
          · exact .inr (List.mem_cons_self ..)
          · exact .inl ⟨l', by rw [World.queue_requeue hd, if_pos rfl]; exact hl, rfl⟩
        · exact .inl ⟨l', by rw [World.queue_requeue hd, if_neg he]; exact hl, rfl⟩
      · rcases List.mem_cons.1 hm with hm | hm
        · cases hm
        · exact .inr (List.mem_cons_of_mem _ hm)
    framed := fun hm => by
      rw [World.containsDeferred_requeue, World.fired_requeue hd]
      rcases List.mem_cons.1 hm with rfl | hm
      · exact ⟨hd, fired⟩
      · exact h.framed (List.mem_cons_of_mem _ hm)
    held := fun {c e} hm => by
      rcases List.mem_cons.1 hm with he | hm
      · cases he
        refine ⟨heeds first, fun l' hl he => once.1 ?_⟩
        rw [World.queue_requeue hd, if_pos rfl] at hl
        exact he ▸ List.mem_map_of_mem hl
      · obtain ⟨hc, hq⟩ := h.held (List.mem_cons_of_mem _ hm)
        exact ⟨heeds hc, fun l' hl => hq l' (sub hl)⟩
    heldOnce := by
      refine List.nodup_cons.2 ⟨fun hm => ?_, h.heldOnce⟩
      -- A loop that holds the listener would be one over the same queue, which still has it.
      obtain ⟨⟨e, held⟩, hf, rfl⟩ := List.mem_filterMap.1 hm
      obtain ⟨hc, hq⟩ := h.held (List.mem_cons_of_mem _ hf)
      cases hc.1.unique first.1
      exact hq l (queue ▸ List.mem_cons_self ..) rfl
    drained := fun {e} hf hq => by
      rw [World.queue_requeue hd] at hq
      split at hq
      · next he => exact he ▸ List.mem_cons_self ..
      · exact h.drained ((World.fired_requeue hd rest).1 hf) hq }

/-- The general form of settling a deferred: where a queue or a loop still has it, nothing refers to
the deferred of that queue or loop any more. -/
private theorem settle (h : Wired F w) (hc : w.containsDeferred c = true) (s : Settlement)
    (hp : ∀ {d}, w.Bound c d → w.Fired d)
    (hq : ∀ {d l}, l ∈ w.queue d → l.promise.deferred = c → w.Released d)
    (hm : ∀ {d c'}, ⟨d, some c'⟩ ∈ F → c' ≠ c → ⟨d, some c'⟩ ∈ G)
    (hm' : ∀ {d c'}, ⟨d, some c'⟩ ∈ G → ⟨d, some c'⟩ ∈ F ∧ (c' = c → w.Released d))
    (hG : G.map (·.deferred) = F.map (·.deferred)) (ho : (G.filterMap (·.held)).Nodup) :
    Wired (⟨c, none⟩ :: G) (w.settle c s) := by
  have heeds {c' d : DeferredId} (ha : w.Heeds c' d) (gone : c' = c → w.Released d) :
      (w.settle c s).Heeds c' d := by
    refine ⟨(World.chained_settle hc s).2 ha.1, fun hf => (World.released_settle hc s).2 ?_⟩
    exact ((World.fired_settle hc s).1 hf).elim gone ha.2
  exact {
    parent := fun hch => by
      rw [World.containsDeferred_settle]
      exact h.parent ((World.chained_settle hc s).1 hch)
    parentFired := fun {c' d} ⟨hch, alive⟩ hf => by
      rw [World.chained_settle hc] at hch
      rw [World.released_settle hc] at alive
      refine (World.fired_settle hc s).2 (.inr ?_)
      rcases (World.fired_settle hc s).1 hf with rfl | hf
      · exact hp ⟨hch, alive⟩
      · exact h.parentFired ⟨hch, alive⟩ hf
    queued := fun hl => by
      rw [World.queue_settle hc] at hl
      exact heeds (h.queued hl) (hq hl)
    queuedOnce := fun d => by
      rw [World.queue_settle hc]
      exact h.queuedOnce d
    waiting := fun {c' d} ⟨hch, unfired⟩ => by
      rw [World.chained_settle hc] at hch
      rw [World.fired_settle hc, not_or] at unfired
      rw [World.queue_settle hc]
      exact (h.waiting ⟨hch, unfired.2⟩).imp id fun hf => List.mem_cons_of_mem _ (hm hf unfired.1)
    framed := fun {f} hf => by
      rw [World.containsDeferred_settle, World.fired_settle hc]
      rcases List.mem_cons.1 hf with rfl | hf
      · exact ⟨hc, .inl rfl⟩
      · have hf : f.deferred ∈ F.map (·.deferred) := hG ▸ List.mem_map_of_mem hf
        obtain ⟨g, hg, he⟩ := List.mem_map.1 hf
        rw [← he]
        exact ⟨(h.framed hg).1, .inr (h.framed hg).2⟩
    held := fun {c' d} hf => by
      rcases List.mem_cons.1 hf with he | hf
      · cases he
      · obtain ⟨hf, gone⟩ := hm' hf
        obtain ⟨ha, hq'⟩ := h.held hf
        rw [World.queue_settle hc]
        exact ⟨heeds ha gone, hq'⟩
    heldOnce := ho
    drained := fun {d} hf hne => by
      rw [World.queue_settle hc] at hne
      rw [List.map_cons, hG]
      rcases (World.fired_settle hc s).1 hf with rfl | hf
      · exact List.mem_cons_self ..
      · exact List.mem_cons_of_mem _ (h.drained hf hne) }

/-- A deferred may be settled at any time if it is chained to no other, or nothing refers to that
one any more. -/
theorem fire (h : Wired F w) (hc : w.containsDeferred c = true) (hu : ∀ d, ¬ w.Bound c d)
    (s : Settlement) : Wired (⟨c, none⟩ :: F) (w.settle c s) := by
  have gone {c' d : DeferredId} (ha : w.Heeds c' d) (he : c' = c) : w.Released d :=
    Classical.not_not.1 fun alive => hu d ⟨he ▸ ha.1, alive⟩
  exact h.settle hc s (fun bound => absurd bound (hu _)) (fun hl => gone (h.queued hl))
    (fun hf _ => hf) (fun hf => ⟨hf, gone (h.held hf).1⟩) rfl h.heldOnce

/-- The result of a handler goes to the deferred that its loop holds. -/
theorem deliver (h : Wired (⟨d, some c⟩ :: F) w) (s : Settlement) :
    Wired (⟨c, none⟩ :: ⟨d, none⟩ :: F) (w.settle c s) := by
  obtain ⟨ha, hq⟩ := h.held (List.mem_cons_self ..)
  obtain ⟨once, others⟩ := List.nodup_cons.1 h.heldOnce
  refine h.settle (World.contains_of_chained ha.1) s
    (fun bound => ha.1.unique bound.1 ▸ (h.framed (List.mem_cons_self ..)).2)
    (fun {e l} hl he => ?_) (fun {e c'} hf hne => ?_) (fun {e c'} hf => ?_) rfl others
  · have hch := (h.queued hl).1
    rw [he] at hch
    cases ha.1.unique hch
    exact absurd he (hq l hl)
  · rcases List.mem_cons.1 hf with he | hf
    · cases he
      exact absurd rfl hne
    · exact List.mem_cons_of_mem _ hf
  · rcases List.mem_cons.1 hf with he | hf
    · cases he
    · refine ⟨List.mem_cons_of_mem _ hf, fun he => absurd ?_ once⟩
      exact List.mem_filterMap.2 ⟨_, hf, congrArg some he⟩

/-- The deferred that a loop holds has fired meanwhile, so it needs nothing of the loop. -/
theorem refuse (h : Wired (⟨d, some c⟩ :: F) w) (hc : w.Fired c) : Wired (⟨d, none⟩ :: F) w where
  parent := h.parent
  parentFired := h.parentFired
  queued := h.queued
  queuedOnce := h.queuedOnce
  waiting ha := by
    refine (h.waiting ha).imp id fun hm => ?_
    rcases List.mem_cons.1 hm with he | hm
    · cases he
      exact absurd hc ha.2
    · exact List.mem_cons_of_mem _ hm
  framed hm := by
    rcases List.mem_cons.1 hm with rfl | hm
    · exact @h.framed ⟨d, some c⟩ (List.mem_cons_self ..)
    · exact h.framed (List.mem_cons_of_mem _ hm)
  held hm := by
    rcases List.mem_cons.1 hm with he | hm
    · cases he
    · exact h.held (List.mem_cons_of_mem _ hm)
  heldOnce := (List.nodup_cons.1 h.heldOnce).2
  drained := h.drained

/-- The last reference to a deferred may go at any time. -/
theorem release (h : Wired F w) (d : DeferredId) : Wired F (w.release d) := by
  have heeds {c e : DeferredId} (ha : w.Heeds c e) : (w.release d).Heeds c e :=
    ⟨World.chained_release.2 ha.1, fun hf => (ha.2 (World.fired_release.1 hf)).release⟩
  exact {
    parent := fun hc => by
      rw [World.containsDeferred_release]
      exact h.parent (World.chained_release.1 hc)
    parentFired := fun ⟨hc, alive⟩ hf => World.fired_release.2 <| h.parentFired
      ⟨World.chained_release.1 hc, mt World.Released.release alive⟩ (World.fired_release.1 hf)
    queued := fun hl => heeds (h.queued (World.queue_release ▸ hl))
    queuedOnce := fun e => by
      rw [World.queue_release]
      exact h.queuedOnce e
    waiting := fun ⟨hc, unfired⟩ => by
      rw [World.queue_release]
      exact h.waiting ⟨World.chained_release.1 hc, mt World.fired_release.2 unfired⟩
    framed := fun hm => by
      rw [World.containsDeferred_release, World.fired_release]
      exact h.framed hm
    held := fun hm => by
      rw [World.queue_release]
      exact (h.held hm).imp heeds id
    heldOnce := h.heldOnce
    drained := fun hf hq => by
      rw [World.queue_release] at hq
      exact h.drained (World.fired_release.1 hf) hq }

/-- A new deferred that is chained to no other. -/
theorem add (h : Wired F w) {canceller : Option (Canceller κ)}
    (hu : ∀ d, canceller ≠ some (.parent d)) : Wired F (w.addDeferred canceller).2 := by
  have chained {c d : DeferredId} : (w.addDeferred canceller).2.Chained c d ↔ w.Chained c d := by
    rw [World.chained_addDeferred]
    simp [hu]
  have fired {e : DeferredId} (he : w.containsDeferred e = true) :
      (w.addDeferred canceller).2.Fired e ↔ w.Fired e := by
    rw [World.fired_addDeferred]
    simp [World.ne_new canceller he]
  have awaits {c d : DeferredId} : (w.addDeferred canceller).2.Awaits c d ↔ w.Awaits c d := by
    unfold World.Awaits
    rw [chained]
    exact and_congr_right fun hc => not_congr (fired (World.contains_of_chained hc))
  have heeds {c d : DeferredId} (h : w.Heeds c d) : (w.addDeferred canceller).2.Heeds c d :=
    ⟨chained.2 h.1, fun hf => (World.released_addDeferred canceller).2
      (h.2 ((fired (World.contains_of_chained h.1)).1 hf))⟩
  have contains {e : DeferredId} (he : w.containsDeferred e = true) :=
    World.contains_addDeferred canceller he
  exact {
    parent := fun hc => contains (h.parent (chained.1 hc))
    parentFired := fun ⟨hc, alive⟩ hf => by
      rw [chained] at hc
      rw [World.released_addDeferred] at alive
      exact (fired (h.parent hc)).2
        (h.parentFired ⟨hc, alive⟩ ((fired (World.contains_of_chained hc)).1 hf))
    queued := fun hl => by
      rw [World.queue_addDeferred] at hl
      exact heeds (h.queued hl)
    queuedOnce := fun d => by
      rw [World.queue_addDeferred]
      exact h.queuedOnce d
    waiting := fun hc => by
      rw [World.queue_addDeferred]
      exact h.waiting (awaits.1 hc)
    framed := fun hf => by
      obtain ⟨hd, hf⟩ := h.framed hf
      exact ⟨contains hd, (fired hd).2 hf⟩
    held := fun hf => by
      rw [World.queue_addDeferred]
      exact (h.held hf).imp heeds id
    heldOnce := h.heldOnce
    drained := fun hf hq => by
      rw [World.queue_addDeferred] at hq
      exact h.drained ((World.fired_addDeferred canceller).1 hf).2 hq }

/-- A new deferred waits in the queue of the one that it is chained to. -/
theorem register (h : Wired F w) (hd : w.containsDeferred d = true)
    (hf : w.Fired d → d ∈ F.map (·.deferred)) {l : Listener κ} {callback errback : Option κ}
    (hl : l = w.newListener callback errback) : Wired F (w.enlist d l) := by
  have old {e : DeferredId} (he : w.containsDeferred e = true) := World.ne_newListener hl he
  have mem {e : DeferredId} {l' : Listener κ} (hm : l' ∈ (w.enlist d l).queue e) :
      l' = l ∧ e = d ∨ l' ∈ w.queue e := by
    rw [World.queue_enlist hd] at hm
    split at hm
    · next he =>
      rcases List.mem_append.1 hm with hm | hm
      · exact .inr (he ▸ hm)
      · exact .inl ⟨List.mem_singleton.1 hm, he⟩
    · exact .inr hm
  exact {
    parent := fun hc => by
      rcases (World.chained_enlist hd hl).1 hc with ⟨-, rfl⟩ | hc
      · exact World.containsDeferred_enlist hd
      · exact World.containsDeferred_enlist (h.parent hc)
    parentFired := fun ⟨hc, alive⟩ hf => by
      rw [World.released_enlist hd] at alive
      obtain ⟨hne, hf⟩ := (World.fired_enlist hd hl).1 hf
      rcases (World.chained_enlist hd hl).1 hc with ⟨rfl, -⟩ | hc
      · exact absurd rfl hne
      · exact (World.fired_enlist hd hl).2 ⟨old (h.parent hc), h.parentFired ⟨hc, alive⟩ hf⟩
    queued := fun hm => by
      rcases mem hm with ⟨rfl, rfl⟩ | hm
      · exact ((World.awaits_enlist hd hl).2 (.inl ⟨rfl, rfl⟩)).heeds
      · exact (h.queued hm).enlist hd hl
    queuedOnce := fun e => by
      rw [World.queue_enlist hd]
      split
      · rw [List.map_append]
        refine List.nodup_append.2 ⟨h.queuedOnce d, by simp, ?_⟩
        rintro c' hc' _ hm
        obtain ⟨l', hl', rfl⟩ := List.mem_map.1 hc'
        rw [List.map_singleton, List.mem_singleton] at hm
        exact hm ▸ old (World.contains_of_chained (h.queued hl').1)
      · exact h.queuedOnce e
    waiting := fun {c' e} hc => by
      rw [World.queue_enlist hd]
      rcases (World.awaits_enlist hd hl).1 hc with ⟨rfl, rfl⟩ | hc
      · exact .inl ⟨l, by simp, rfl⟩
      · refine (h.waiting hc).imp (fun ⟨l', hl', he⟩ => ⟨l', ?_, he⟩) id
        split
        · next hed => exact List.mem_append_left _ (hed ▸ hl')
        · exact hl'
    framed := fun hm => by
      obtain ⟨he, hf⟩ := h.framed hm
      exact ⟨World.containsDeferred_enlist he, (World.fired_enlist hd hl).2 ⟨old he, hf⟩⟩
    held := fun {c' e} hm => by
      obtain ⟨ha, hq⟩ := h.held hm
      refine ⟨ha.enlist hd hl, fun l' hl' => ?_⟩
      rcases mem hl' with ⟨rfl, -⟩ | hl'
      · exact (old (World.contains_of_chained ha.1)).symm
      · exact hq l' hl'
    heldOnce := h.heldOnce
    drained := fun {e} hfe hq => by
      obtain ⟨-, hfe⟩ := (World.fired_enlist hd hl).1 hfe
      rw [World.queue_enlist hd] at hq
      split at hq
      · next he => exact he ▸ hf (he ▸ hfe)
      · exact h.drained hfe hq }

/-! ## While the same loops stay open -/

variable {τ : Type} {w' : World κ τ}

/-- Nobody waits at a deferred that fired while the same loops stayed open. -/
theorem idle (h : Wired F w) (hd : ¬ w.Fired d) (h' : Wired F w') (hf : w'.Fired d) :
    w'.queue d = [] := by
  -- Loops are open over fired deferred results only, so none of these is over `d`.
  refine Classical.byContradiction fun hq => hd ?_
  obtain ⟨f, hm, rfl⟩ := List.mem_map.1 (h'.drained hf hq)
  exact (h.framed hm).2

/-- What is chained to a deferred that fired while the same loops stayed open has fired, too. -/
theorem chainedFired (h : Wired F w) (hd : ¬ w.Fired d) (h' : Wired F w') (hf : w'.Fired d)
    (hc : w'.Chained c d) : w'.Fired c := by
  refine Classical.byContradiction fun hu => ?_
  rcases h'.waiting ⟨hc, hu⟩ with ⟨l, hl, -⟩ | hm
  · exact List.ne_nil_of_mem hl (h.idle hd h' hf)
  · exact hd (h.framed hm).2

end Wired

end Prototypal
