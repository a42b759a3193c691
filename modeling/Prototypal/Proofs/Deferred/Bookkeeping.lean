import Prototypal.Proofs.Deferred.History
import Prototypal.Proofs.Deferred.Wiring

/-!
# What a history tells

The listeners that were registered on a deferred and those that were taken, in order, the deferred
results that are being told, and how a world agrees with its history.
-/

namespace Prototypal

variable {κ σ τ : Type}

namespace Event

/-- The listener that is registered on a deferred. -/
def registered? (d : DeferredId) : Event κ → Option (Listener κ)
  | .registered e l => if e = d then some l else none
  | _ => none

/-- The listener that is taken from a deferred. -/
def taken? (d : DeferredId) : Event κ → Option (Listener κ)
  | .taken e l => if e = d then some l else none
  | _ => none

end Event

namespace History

/-- The listeners that were registered on a deferred, the earliest first. -/
def registeredOn (d : DeferredId) (h : History κ σ) : List (Listener κ) :=
  (h.filterMap (·.event.registered? d)).reverse

/-- The listeners that were taken from a deferred, the earliest first. -/
def takenFrom (d : DeferredId) (h : History κ σ) : List (Listener κ) :=
  (h.filterMap (·.event.taken? d)).reverse

/-- The deferred results whose listeners are being told, the innermost first.  It begins when a
deferred gets its outcome, or handlers when it had one. -/
def telling : History κ σ → List DeferredId
  | [] => []
  | m :: h =>
    match m.event with
    | .fired d _ | .cancelled d _ => d :: telling h
    | .registered d _ => if (m.world.deferred d).isFired then d :: telling h else telling h
    | .told _ => (telling h).tail
    | _ => telling h

theorem registeredOn_cons (d : DeferredId) (m : Moment κ σ) (h : History κ σ) :
    registeredOn d (m :: h) = registeredOn d h ++ (m.event.registered? d).toList := by
  unfold registeredOn
  rw [List.filterMap_cons]
  cases m.event.registered? d <;> simp

theorem takenFrom_cons (d : DeferredId) (m : Moment κ σ) (h : History κ σ) :
    takenFrom d (m :: h) = takenFrom d h ++ (m.event.taken? d).toList := by
  unfold takenFrom
  rw [List.filterMap_cons]
  cases m.event.taken? d <;> simp

theorem mem_takenFrom_iff {d : DeferredId} {h : History κ σ} {l : Listener κ} :
    l ∈ takenFrom d h ↔ ∃ m ∈ h, m.event.taken? d = some l := by
  simp [takenFrom]

theorem mem_takenFrom_of_suffix {d : DeferredId} {h h' : History κ σ} {l : Listener κ}
    (hs : h <:+ h') (hl : l ∈ takenFrom d h) : l ∈ takenFrom d h' := by
  obtain ⟨m, hm, ht⟩ := mem_takenFrom_iff.1 hl
  exact mem_takenFrom_iff.2 ⟨m, hs.subset hm, ht⟩

end History

/-! ## Later worlds -/

/-- What stays with deferred results: their chaining, that nothing refers to them any more, and
their outcome. -/
structure World.Later (w : World κ σ) (w' : World κ τ) : Prop where
  contains {d : DeferredId} : w.containsDeferred d = true → w'.containsDeferred d = true
  chained {c d : DeferredId} : w.containsDeferred c = true → (w'.Chained c d ↔ w.Chained c d)
  released {d : DeferredId} : w.Released d → w'.Released d
  outcome {d : DeferredId} {s : Settlement} : w.containsDeferred d = true →
    (w.deferred d).outcome = some s → (w'.deferred d).outcome = some s

namespace World.Later

variable {ρ : Type} {v : World κ ρ} {w : World κ σ} {w' : World κ τ} {c d : DeferredId}

theorem of_deferreds (h : w'.deferreds = w.deferreds) : w.Later w' := by
  have deferred := deferred_congr h
  exact {
    contains := fun hd => by rwa [containsDeferred, h]
    chained := fun _ => by rw [Chained, Chained, deferred]
    released := fun hr => by rwa [Released, deferred]
    outcome := fun _ ho => by rwa [deferred] }

theorem refl (w : World κ σ) : w.Later w := of_deferreds rfl

theorem trans (h : v.Later w) (h' : w.Later w') : v.Later w' where
  contains hd := h'.contains (h.contains hd)
  chained hc := (h'.chained (h.contains hc)).trans (h.chained hc)
  released hr := h'.released (h.released hr)
  outcome hd ho := h'.outcome (h.contains hd) (h.outcome hd ho)

theorem fired (h : w.Later w') (hd : w.containsDeferred d = true) (hf : w.Fired d) :
    w'.Fired d := by
  obtain ⟨s, hs⟩ := Option.isSome_iff_exists.1 hf
  exact Option.isSome_iff_exists.2 ⟨s, h.outcome hd hs⟩

/-- What can be cancelled through a promise could be before. -/
theorem bound (h : w.Later w') (hc : w.containsDeferred c = true) (hb : w'.Bound c d) :
    w.Bound c d :=
  ⟨(h.chained hc).1 hb.1, mt h.released hb.2⟩

theorem settle {w : World κ σ} (hd : ¬ w.Fired d) (s : Settlement) : w.Later (w.settle d s) where
  contains he := by rwa [containsDeferred_settle]
  chained _ := chained_settle (contains_of_not_fired hd) s
  released := (released_settle (contains_of_not_fired hd) s).2
  outcome {e s'} _ ho := by
    have he : e ≠ d := by
      rintro rfl
      exact hd (Option.isSome_iff_exists.2 ⟨s', ho⟩)
    rwa [World.settle, deferred_setDeferred _ (contains_of_not_fired hd), if_neg he]

theorem requeue {w : World κ σ} (hd : w.containsDeferred d = true)
    (listeners : Queue (Listener κ)) : w.Later (w.requeue d listeners) where
  contains he := by rwa [containsDeferred_requeue]
  chained _ := chained_requeue hd listeners
  released := (released_requeue hd listeners).2
  outcome _ ho := by rwa [outcome_requeue hd]

theorem addDeferred (w : World κ σ) (canceller : Option (Canceller κ)) :
    w.Later (w.addDeferred canceller).2 where
  contains hd := contains_addDeferred canceller hd
  chained hc := by
    rw [chained_addDeferred]
    simp [ne_new canceller hc]
  released := (released_addDeferred canceller).2
  outcome hd ho := by rwa [deferred_addDeferred_of_ne _ _ (ne_new canceller hd)]

theorem release (w : World κ σ) (d : DeferredId) : w.Later (w.release d) where
  contains he := by rwa [containsDeferred_release]
  chained _ := chained_release
  released := Released.release
  outcome _ ho := by rwa [outcome_release]

theorem enlist (hd : w.containsDeferred d = true) (l : Listener κ) : w.Later (w.enlist d l) :=
  (addDeferred w _).trans (requeue (contains_addDeferred _ hd) _)

end World.Later

/-! ## A world and its history -/

/-- The history tells the state: who waits, who is chained to whom, and where every outcome comes
from. -/
structure Booked (w : World κ (σ × History κ σ)) : Prop where
  account (d : DeferredId) :
    w.history.registeredOn d = w.history.takenFrom d ++ w.queue d
  chained {d : DeferredId} {l : Listener κ} :
    l ∈ w.history.registeredOn d → w.Chained l.promise.deferred d
  once (d : DeferredId) : ((w.history.registeredOn d).map (·.promise.deferred)).Nodup
  own {c d : DeferredId} :
    w.Chained c d → ∃ l ∈ w.history.registeredOn d, l.promise.deferred = c
  settled {d : DeferredId} {s : Settlement} : w.containsDeferred d = true →
    (w.deferred d).outcome = some s → ∃ m ∈ w.history,
      m.event = .fired d s ∨ m.event = .cancelled d s ∧ ∀ e, ¬ w.Bound d e
  released {d : DeferredId} : w.Released d → ∃ m ∈ w.history, m.event = .released d
  later {m : Moment κ σ} : m ∈ w.history → m.world.Later w

namespace Booked

variable {w w' : World κ (σ × History κ σ)} {e : Event κ} {d : DeferredId}

theorem empty (h : w.deferreds = #[]) (hh : w.history = []) : Booked w := by
  have absent (d : DeferredId) : w.containsDeferred d = false := by
    simp [World.containsDeferred, h]
  exact {
    account := fun d => by
      rw [hh, World.queue, World.deferred_of_not_contains (absent d)]
      rfl
    chained := fun hl => by rw [hh] at hl; cases hl
    once := fun d => by rw [hh]; exact .nil
    own := fun {c d} hc => by
      have contained := World.contains_of_chained hc
      rw [absent c] at contained
      cases contained
    settled := fun {d s} hd => by
      rw [absent d] at hd
      cases hd
    released := fun {d} hr => by
      rw [World.Released, World.deferred_of_not_contains (absent d)] at hr
      cases hr
    later := fun hm => by rw [hh] at hm; cases hm }

/-- Nothing else of the world matters. -/
theorem congr (h : Booked w) (hd : w'.deferreds = w.deferreds) (hh : w'.history = w.history) :
    Booked w' := by
  have deferred := World.deferred_congr hd
  have chained {c d : DeferredId} : w'.Chained c d ↔ w.Chained c d := by
    rw [World.Chained, World.Chained, deferred]
  have later : w.Later w' := .of_deferreds hd
  exact {
    account := fun d => by
      rw [hh, World.queue, deferred]
      exact h.account d
    chained := fun hl => chained.2 (h.chained (hh ▸ hl))
    once := fun d => hh ▸ h.once d
    own := fun hc => hh ▸ h.own (chained.1 hc)
    settled := fun {d s} hd' ho => by
      rw [World.containsDeferred, hd] at hd'
      rw [deferred] at ho
      rw [hh]
      obtain ⟨m, hm, he | ⟨he, hu⟩⟩ := h.settled hd' ho
      · exact ⟨m, hm, .inl he⟩
      · exact ⟨m, hm, .inr ⟨he, fun e hb => hu e (later.bound hd' hb)⟩⟩
    released := fun hr => by
      rw [World.Released, deferred] at hr
      rw [hh]
      exact h.released hr
    later := fun hm => (h.later (hh ▸ hm)).trans later }

/-- An event that registers no listener.  Whoever waited is taken or still waits. -/
theorem pass (h : Booked w) (hr : ∀ d, e.registered? d = none) (hh : w'.history = w.history)
    (hl : w.Later w') (hq : ∀ d, w.queue d = (e.taken? d).toList ++ w'.queue d)
    (hc : ∀ {c d}, w'.Chained c d ↔ w.Chained c d)
    (hs : ∀ {d s}, w'.containsDeferred d = true → (w'.deferred d).outcome = some s →
      w.containsDeferred d = true ∧ (w.deferred d).outcome = some s ∨
        e = .fired d s ∨ e = .cancelled d s ∧ ∀ e, ¬ w.Bound d e)
    (hg : ∀ {d}, w'.Released d → w.Released d ∨ e = .released d) : Booked (w'.note e) := by
  have registered (d : DeferredId) :
      (w'.note e).history.registeredOn d = w.history.registeredOn d := by
    rw [World.history_note, History.registeredOn_cons, hr, hh]
    exact List.append_nil _
  have sub {m : Moment κ σ} (hm : m ∈ w.history) : m ∈ (w'.note e).history := by
    rw [World.history_note, hh]
    exact List.mem_cons_of_mem _ hm
  have noted : w'.Later (w'.note e) := .of_deferreds rfl
  have bound {c d : DeferredId} (hb : w'.Bound c d) : w.Bound c d :=
    ⟨hc.1 hb.1, mt hl.released hb.2⟩
  exact {
    account := fun d => by
      rw [registered, h.account, World.history_note, History.takenFrom_cons, hh, hq,
        List.append_assoc]
      rfl
    chained := fun {d l} hm => by
      rw [registered] at hm
      exact hc.2 (h.chained hm)
    once := fun d => by
      rw [registered]
      exact h.once d
    own := fun {c d} hch => by
      rw [registered]
      exact h.own (hc.1 hch)
    settled := fun {d s} hd ho => by
      rcases hs hd ho with ⟨hd, ho⟩ | hf | ⟨he, hu⟩
      · obtain ⟨m, hm, he | ⟨he, hu⟩⟩ := h.settled hd ho
        · exact ⟨m, sub hm, .inl he⟩
        · exact ⟨m, sub hm, .inr ⟨he, fun e hb => hu e (bound hb)⟩⟩
      · exact ⟨_, List.mem_cons_self .., .inl hf⟩
      · exact ⟨_, List.mem_cons_self .., .inr ⟨he, fun e hb => hu e (bound hb)⟩⟩
    released := fun hr => by
      rcases hg hr with hr | he
      · obtain ⟨m, hm, he⟩ := h.released hr
        exact ⟨m, sub hm, he⟩
      · exact ⟨_, List.mem_cons_self .., he⟩
    later := fun {m} hm => by
      rw [World.history_note, hh] at hm
      rcases List.mem_cons.1 hm with rfl | hm
      · exact .of_deferreds rfl
      · exact ((h.later hm).trans hl).trans noted }

/-- An event that changes nothing. -/
theorem note (h : Booked w) (hr : ∀ d, e.registered? d = none) (ht : ∀ d, e.taken? d = none) :
    Booked (w.note e) :=
  h.pass hr rfl (.refl w) (fun d => by rw [ht]; rfl) Iff.rfl (fun hd ho => .inl ⟨hd, ho⟩) .inl

theorem add (h : Booked w) {canceller : Option (Canceller κ)}
    (hu : ∀ d, canceller ≠ some (.parent d)) :
    Booked ((w.addDeferred canceller).2.note (.made (w.addDeferred canceller).1)) := by
  refine h.pass (fun _ => rfl) rfl (.addDeferred w canceller)
    (fun _ => (World.queue_addDeferred canceller).symm) (fun {c d} => ?_)
    (fun {d s} hd ho => .inl ?_) fun hr => .inl ((World.released_addDeferred canceller).1 hr)
  · rw [World.chained_addDeferred]
    simp [hu]
  · have old : d ≠ (w.addDeferred canceller).1 := by
      rintro rfl
      rw [World.deferred_addDeferred_self] at ho
      cases ho
    rw [World.deferred_addDeferred_of_ne _ _ old] at ho
    rw [World.containsDeferred_addDeferred] at hd
    exact ⟨by simpa [old] using hd, ho⟩

/-- A deferred gets its outcome, by an event that says so. -/
theorem settle (h : Booked w) (hd : ¬ w.Fired d) {s : Settlement}
    (he : e = .fired d s ∨ e = .cancelled d s ∧ ∀ e, ¬ w.Bound d e) :
    Booked ((w.settle d s).note e) := by
  have contained := World.contains_of_not_fired hd
  have unmoved (d : DeferredId) : e.registered? d = none ∧ e.taken? d = none := by
    rcases he with rfl | ⟨rfl, -⟩ <;> exact ⟨rfl, rfl⟩
  refine h.pass (fun d => (unmoved d).1) rfl (.settle hd s) (fun e => ?_)
    (World.chained_settle contained s) (fun {e' s'} he' ho => ?_)
    fun hr => .inl ((World.released_settle contained s).1 hr)
  · rw [(unmoved e).2, World.queue_settle contained]
    rfl
  rw [World.settle, World.deferred_setDeferred _ contained] at ho
  rw [World.containsDeferred_settle] at he'
  split at ho
  · next hed =>
    cases ho
    exact .inr (hed ▸ he)
  · exact .inl ⟨he', ho⟩

/-- The last reference to a deferred goes. -/
theorem release (h : Booked w) (d : DeferredId) :
    Booked ((w.release d).note (.released d)) := by
  refine h.pass (fun _ => rfl) rfl (.release w d) (fun _ => World.queue_release.symm)
    World.chained_release (fun he ho => .inl ⟨?_, ?_⟩) fun hr =>
      (World.released_release hr).imp id (congrArg _ ·.symm)
  · rwa [World.containsDeferred_release] at he
  · rwa [World.outcome_release] at ho

/-- The first waiting listener is taken. -/
theorem take (h : Booked w) (hd : w.containsDeferred d = true) {l : Listener κ}
    {rest : Queue (Listener κ)} (hp : (w.deferred d).listeners.pop? = some (l, rest)) :
    Booked ((w.requeue d rest).note (.taken d l)) := by
  have queue : w.queue d = l :: rest.toList := Queue.toList_of_pop? hp
  refine h.pass (fun _ => rfl) rfl (.requeue hd rest) (fun e => ?_) (World.chained_requeue hd rest)
    (fun {e s} he ho => .inl ?_) fun hr => .inl ((World.released_requeue hd rest).1 hr)
  · rw [World.queue_requeue hd, Event.taken?]
    by_cases he : e = d
    · rw [if_pos he.symm, if_pos he, he, queue]
      rfl
    · rw [if_neg (Ne.symm he), if_neg he]
      rfl
  · rw [World.containsDeferred_requeue] at he
    rw [World.outcome_requeue hd] at ho
    exact ⟨he, ho⟩

/-- A new listener waits, and the deferred of its promise is chained. -/
theorem register (h : Booked w) (hd : w.containsDeferred d = true) {l : Listener κ}
    {callback errback : Option κ} (hl : l = w.newListener callback errback) :
    Booked ((w.enlist d l).note (.registered d l)) := by
  let w' := (w.enlist d l).note (.registered d l)
  have later : w.Later w' := (World.Later.enlist hd l).trans (.of_deferreds rfl)
  have chained {c e : DeferredId} :
      w'.Chained c e ↔ c = l.promise.deferred ∧ e = d ∨ w.Chained c e := World.chained_enlist hd hl
  have registered (e : DeferredId) : w'.history.registeredOn e =
      w.history.registeredOn e ++ if d = e then [l] else [] := by
    rw [show w'.history = _ :: w.history from rfl, History.registeredOn_cons, Event.registered?]
    split <;> rfl
  have taken (e : DeferredId) : w'.history.takenFrom e = w.history.takenFrom e :=
    (History.takenFrom_cons ..).trans (List.append_nil _)
  have queue (e : DeferredId) : w'.queue e = w.queue e ++ if d = e then [l] else [] := by
    rw [show w'.queue e = _ from World.queue_enlist hd]
    by_cases he : e = d
    · rw [if_pos he, if_pos he.symm, he]
    · rw [if_neg he, if_neg (Ne.symm he), List.append_nil]
  have mem {e : DeferredId} {l' : Listener κ} (hm : l' ∈ w'.history.registeredOn e) :
      l' = l ∧ e = d ∨ l' ∈ w.history.registeredOn e := by
    rw [registered] at hm
    rcases List.mem_append.1 hm with hm | hm
    · exact .inr hm
    · split at hm
      · next he => exact .inl ⟨List.mem_singleton.1 hm, he.symm⟩
      · cases hm
  show Booked w'
  exact {
    account := fun e => by rw [registered, taken, queue, h.account, List.append_assoc]
    chained := fun hm => by
      rw [chained]
      rcases mem hm with ⟨rfl, rfl⟩ | hm
      · exact .inl ⟨rfl, rfl⟩
      · exact .inr (h.chained hm)
    once := fun e => by
      rw [registered, List.map_append]
      refine List.nodup_append.2 ⟨h.once e, by split <;> simp, ?_⟩
      intro c' hc' c'' hm
      obtain ⟨l', hl', rfl⟩ := List.mem_map.1 hc'
      split at hm
      · rw [List.mem_singleton.1 hm]
        exact World.ne_newListener hl (World.contains_of_chained (h.chained hl'))
      · cases hm
    own := fun {c' e} hc => by
      rw [registered]
      rcases chained.1 hc with ⟨rfl, rfl⟩ | hc
      · exact ⟨l, by simp, rfl⟩
      · obtain ⟨l', hl', he⟩ := h.own hc
        exact ⟨l', List.mem_append_left _ hl', he⟩
    settled := fun {e s} he ho => by
      have ⟨he, ho⟩ := World.outcome_enlist hd hl he ho
      obtain ⟨m, hm, hs | ⟨hs, hu⟩⟩ := h.settled he ho
      · exact ⟨m, List.mem_cons_of_mem _ hm, .inl hs⟩
      · exact ⟨m, List.mem_cons_of_mem _ hm,
          .inr ⟨hs, fun e' hb => hu e' (later.bound he hb)⟩⟩
    released := fun hr => by
      obtain ⟨m, hm, he⟩ := h.released ((World.released_enlist hd).1 hr)
      exact ⟨m, List.mem_cons_of_mem _ hm, he⟩
    later := fun {m} hm => by
      rcases List.mem_cons.1 hm with rfl | hm
      · exact .of_deferreds rfl
      · exact (h.later hm).trans later }

end Booked

end Prototypal
