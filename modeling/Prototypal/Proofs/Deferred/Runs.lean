import Prototypal.Proofs.Deferred.Laws

/-!
# Recorded runs keep the invariant

Every operation is proved for whatever loops are open when it starts: it leaves the same loops open,
because a loop that it opens ends before it returns.
-/

namespace Prototypal

open Run (Agree)

variable {κ σ α : Type}

/-- Whatever loops are open, the run keeps the invariant and leaves the same loops open. -/
def Orderly (client : Client κ σ) (x : Run κ (σ × History κ σ) α) : Prop :=
  ∀ ⦃F w⦄, Steady client F w → x.Ends w fun _ w' => Steady client F w' ∧ Follows w w'

/-- Only the heap changes when a cancellation gets its reason. -/
theorem Deferred.reasonOf_gives (result : Value) (w : World κ σ) :
    (reasonOf result).Gives w fun _ w' =>
      w'.deferreds = w.deferreds ∧ w'.client = w.client := by
  unfold reasonOf
  split
  · exact ⟨_, rfl, rfl, rfl⟩
  · exact ⟨_, rfl, rfl, rfl⟩

/-- Only the heap changes when the result of a listener becomes a settlement. -/
theorem Deferred.settlementOf_gives (result : Except Fault Value) (w : World κ σ) :
    (settlementOf result).Gives w fun s w' =>
      w'.deferreds = w.deferreds ∧ w'.client = w.client ∧
        Settlement.Conveys w.heap w'.heap result s := by
  cases result with
  | ok v => exact ⟨_, rfl, rfl, rfl, .value v⟩
  | error f => exact ⟨_, rfl, rfl, rfl, .error w.heap.contains_next (.ofFault w.heap f)⟩

namespace Recorded

/-- Bodies run as they do without a record, and keep the invariant. -/
structure Faithful (client : Client κ σ) (exec : Exec κ (σ × History κ σ)) : Prop where
  orderly (body : Body κ) (invocation : Invocation) : Orderly client (exec body invocation)
  forgets : ∃ n, Lockstep.ExecAgree Forgets exec (Prototypal.execute client n)

/-- What a recorded run ends with, the run itself ends with. -/
theorem attempt_of_forgets {x : Run κ (σ × History κ σ) α} {y : Run κ σ α} (h : Agree Forgets x y)
    {w w' : World κ (σ × History κ σ)} {r : Except Fault α} (hx : x.attempt w = .value r w') :
    y.attempt w.forget = .value r w'.forget := by
  have agree := h.attempt (rfl : Forgets w w.forget)
  rw [hx] at agree
  generalize y.attempt w.forget = b at agree ⊢
  cases agree with
  | value same => exact congrArg (Outcome.value r) (Eq.symm same)

/-! ## Notification -/

section
variable {client : Client κ σ} {exec : Exec κ (σ × History κ σ)} (he : Faithful client exec)
  {F : List Frame} {w : World κ (σ × History κ σ)} {d : DeferredId}

include he in
/-- The handler of the listener that was just taken runs, and its result is noted. -/
theorem handle_ends {l : Listener κ} {s : Settlement} {m : Moment κ σ} {before : History κ σ}
    (h : Sound client F w) (hh : w.history = m :: before) (hm : m.event = .taken d l)
    (ht : l ∈ History.takenFrom d w.history) (hd : w.containsDeferred d = true)
    (ho : (w.deferred d).outcome = some s) :
    (handle exec d l s).Ends w fun result w' =>
      Sound client F (w'.note (.ended d l result)) ∧ Follows w w' ∧
        l ∈ History.takenFrom d w'.history := by
  unfold handle
  cases hl : l.handler? s with
  | none =>
      have passes := Listener.passes_of_handler? hl
      refine ⟨h.note (fun _ => rfl) (fun _ => rfl) rfl ⟨ht, .passed ho passes⟩ ?_, .refl w, ht⟩
      rw [hh]
      simp only [Moment.Answers, hm]
      exact ⟨s, ho, .inr ⟨passes, trivial⟩⟩
  | some code =>
      refine .modify ?_
      have follows : Follows w (w.note (.started d l code s.payload)) := .note (.refl w) rfl _
      refine ((he.orderly _ _ (Steady.start h hh hm ho hl)).and .attempt_eq).mono ?_
      rintro result w' ⟨⟨steady, after⟩, ran⟩
      obtain ⟨n, forgets⟩ := he.forgets
      have ran := attempt_of_forgets (forgets ..) ran
      have taken : l ∈ History.takenFrom d w'.history :=
        History.mem_takenFrom_of_suffix (follows.trans after).history ht
      refine ⟨steady.note (fun _ => rfl) (fun _ => rfl) rfl ⟨taken, ?_⟩ (steady.calm.answers _),
        follows.trans after, taken⟩
      exact .called (after.later.outcome hd ho) (Listener.calls_of_handler? hl)
        (after.history.mem (List.mem_cons_self ..)) rfl ran

/-- What a listener made of the outcome is given to the deferred of its promise, or refused by it.
-/
theorem deliver_gives {notify : DeferredId → Run κ (σ × History κ σ) Unit} {l : Listener κ}
    (hn : ∀ {F w}, Steady client (⟨l.promise.deferred, none⟩ :: F) w →
      (notify l.promise.deferred).Gives w fun _ w' =>
        Steady client F w' ∧ Follows w w' ∧ w'.queue l.promise.deferred = [])
    (h : Sound client (⟨d, some l.promise.deferred⟩ :: F) w) {m : Moment κ σ}
    {before : History κ σ} {result : Except Fault Value} {s : Settlement}
    (hh : w.history = m :: before) (hm : m.event = .ended d l result)
    (ht : l ∈ History.takenFrom d w.history)
    (hs : Settlement.Conveys m.world.heap w.heap result s) :
    (deliver notify l s).Gives w fun _ w' =>
      Steady client (⟨d, none⟩ :: F) w' ∧ Follows w w' := by
  have fires : (fireWith notify l.promise.deferred s).Ends w fun r w' =>
      (r = .ok () ∧ Steady client (⟨d, none⟩ :: F) w' ∧ Follows w w') ∨
        r = .error .alreadyFired ∧ w' = w ∧ w.Fired l.promise.deferred := by
    refine .view ?_
    split
    · next fired => exact .inr ⟨rfl, rfl, fired⟩
    · next unfired =>
      refine .modify (Run.Ends.mono (hn (.deliver h hh hm ht unfired hs)) ?_)
      exact fun ⟨_, hr, steady, after, _⟩ =>
        .inl ⟨hr, steady, (Follows.note (.settle unfired s) rfl _).trans after⟩
  refine Run.Ends.attempt fires ?_
  rintro r w' (⟨rfl, kept⟩ | ⟨rfl, rfl, fired⟩)
  · exact ⟨(), rfl, kept⟩
  · exact ⟨(), rfl, .refuse h hh hm ht fired, .note (.refl _) rfl _⟩

include he in
/-- Telling the listeners of a deferred closes the loop over them, and never fails. -/
theorem notify_gives (n : Nat) (d : DeferredId) {F : List Frame} {w : World κ (σ × History κ σ)}
    (h : Steady client (⟨d, none⟩ :: F) w) :
    (notify exec n d).Gives w fun _ w' => Steady client F w' ∧ Follows w w' ∧ w'.queue d = [] := by
  induction n generalizing d F w with
  | zero => trivial
  | succ n ih =>
      obtain ⟨contained, fired⟩ := h.wired.framed (List.mem_cons_self ..)
      refine .view ?_
      split
      · next s l rest hs hp =>
          let w₁ := (w.requeue d rest).note (.taken d l)
          have sound : Sound client (⟨d, some l.promise.deferred⟩ :: F) w₁ := .take h hp
          have after₁ : Follows w w₁ := .note (.requeue contained rest) rfl _
          have taken : l ∈ History.takenFrom d w₁.history :=
            History.mem_takenFrom_iff.2 ⟨_, List.mem_cons_self .., if_pos rfl⟩
          -- The open loop holds the deferred of the promise while the handler runs, and the handler
          -- leaves all loops that were open as they were.  So nothing else has fired it.
          refine .modify (Run.Ends.attempt (handle_ends he sound rfl rfl taken
            (after₁.later.contains contained) (after₁.later.outcome contained hs)) ?_)
          intro result w₂ ⟨sound, after₂, taken⟩
          have after₃ : Follows w₂ (w₂.note (.ended d l result)) := .note (.refl w₂) rfl _
          refine .modify ((Deferred.settlementOf_gives result _).bind ?_)
          intro s w₃ ⟨hd, hc, hs⟩
          have hh : w₃.history = (w₂.note (.ended d l result)).history := congrArg Prod.snd hc
          have ended : Sound client (⟨d, some l.promise.deferred⟩ :: F) w₃ := sound.congr hd hh
          refine (deliver_gives (ih _) ended hh rfl ?_ hs).bind fun ⟨steady, after₄⟩ => ?_
          · rw [hh]
            exact History.mem_takenFrom_of_suffix after₃.history taken
          · refine (ih d steady).mono fun ⟨steady, after₅, idle⟩ => ⟨steady, ?_, idle⟩
            exact ((((after₁.trans after₂).trans after₃).trans (.of_eq hd hh)).trans after₄).trans
              after₅
      · next done =>
          have idle := World.queue_eq_nil fired done
          exact ⟨(), rfl, h.told idle, .note (.refl w) rfl _, idle⟩

/-! ## The use of a deferred -/

include he

/-- Setting the outcome of a deferred that is chained to no other, or that is cancelled and cancels
no other one, and telling its listeners. -/
theorem settle_gives (n : Nat) (h : Steady client F w) (hd : ¬ w.Fired d) {s : Settlement}
    {e : Event κ}
    (hs : e = .fired d s ∧ (∀ e, ¬ w.Chained d e) ∨ e = .cancelled d s ∧ ∀ e, ¬ w.Bound d e) :
    (do change e d { w.deferred d with outcome := some s }; notify exec n d).Gives w
      fun _ w' => Steady client F w' ∧ Follows w w' ∧ w'.Fired d := by
  have after : Follows w ((w.settle d s).note e) := .note (.settle hd s) rfl _
  have contained := after.later.contains (World.contains_of_not_fired hd)
  have fired : ((w.settle d s).note e).Fired d :=
    (World.fired_settle (World.contains_of_not_fired hd) s).2 (.inl rfl)
  refine .modify ((notify_gives he n d (h.settle hd hs)).mono fun ⟨steady, after', _⟩ => ?_)
  exact ⟨steady, after.trans after', after'.later.fired contained fired⟩

omit he in
/-- A use that fired its deferred leaves nobody waiting there. -/
theorem returned_ends {w' : World κ (σ × History κ σ)} (h : Steady client F w) (hd : ¬ w.Fired d)
    (h' : Steady client F w') (after : Follows w w') :
    (note (.returned d)).Ends w' fun _ w' => Steady client F w' ∧ Follows w w' :=
  ⟨h'.returned (h.idle hd h'), after.trans (.note (.refl w') rfl _)⟩

theorem fire_orderly (n : Nat) (d : DeferredId) (s : Settlement) :
    Orderly client (fire exec n d s) := by
  intro F w h
  refine .view ?_
  split
  · exact ⟨h, .refl w⟩
  · next unchained =>
    have unchained (e : DeferredId) : ¬ w.Chained d e := fun hc =>
      unchained (World.isChained_iff.2 ⟨e, hc⟩)
    have fires : (fireWith (notify exec n) d s).Ends w fun r w' =>
        Steady client F w' ∧ Follows w w' ∧ (r = .ok () → ¬ w.Fired d) := by
      refine .view ?_
      split
      · exact ⟨h, .refl w, nofun⟩
      · next hd =>
        refine Run.Ends.mono (settle_gives he n h hd (.inl ⟨rfl, unchained⟩)) ?_
        exact fun ⟨_, _, steady, after, _⟩ => ⟨steady, after, fun _ => hd⟩
    exact fires.bind (fun ⟨steady, after, hd⟩ => returned_ends h (hd rfl) steady after)
      fun ⟨steady, after, _⟩ => ⟨steady, after⟩

theorem abort_gives (n : Nat) (reason : Value) (h : Steady client F w)
    (hu : ¬ w.Fired d → ∀ e, ¬ w.Bound d e) :
    (abort (notify exec n) d reason).Gives w fun _ w' =>
      Steady client F w' ∧ Follows w w' ∧ w'.Fired d := by
  refine .view ?_
  split
  · next fired => exact ⟨(), rfl, h, .refl w, fired⟩
  · next hd => exact settle_gives he n h hd (.inr ⟨rfl, hu hd⟩)

/-- A canceller leaves its deferred fired, or cancels no other one through it. -/
theorem runCanceller_ends {cancel : DeferredId → Run κ (σ × History κ σ) Unit}
    (hc : ∀ p, (cancel p).Ends w fun r w' =>
      Steady client F w' ∧ Follows w w' ∧ (r = .ok () → ¬ w.Fired p ∧ w'.Fired p))
    (h : Steady client F w) (hd : ¬ w.Fired d) :
    (Deferred.runCanceller exec cancel d (w.deferred d).canceller).Ends w fun r w' =>
      Steady client F w' ∧ Follows w w' ∧
        ∀ a, r = .ok a → ¬ w'.Fired d → ∀ e, ¬ w'.Bound d e := by
  have contained := World.contains_of_not_fired hd
  match hk : (w.deferred d).canceller with
  | none =>
      refine ⟨h, .refl w, fun _ _ _ e hb => ?_⟩
      cases hk.symm.trans hb.1
  | some (.client code) =>
      refine (he.orderly _ _ h).mono fun ⟨steady, after⟩ => ⟨steady, after, fun _ _ _ e hb => ?_⟩
      cases hk.symm.trans (after.later.bound contained hb).1
  | some (.parent p) =>
      refine .view ?_
      split
      · next released =>
        refine ⟨h, .refl w, fun _ _ _ e hb => hb.2 ?_⟩
        cases hk.symm.trans hb.1
        exact released
      · refine (hc p).bind (fun ⟨steady, after, fired⟩ => ?_) fun ⟨steady, after, _⟩ => ?_
        · obtain ⟨unfired, fired⟩ := fired rfl
          -- No open loop is over `p`, which had not fired before: who was chained to it was told.
          refine ⟨steady, after, fun _ _ hu => absurd ?_ hu⟩
          exact h.chainedFired unfired steady fired ((after.later.chained contained).2 hk)
        · exact ⟨steady, after, nofun⟩

/-- Cancelling succeeds for unfired deferred results only and leaves them fired. -/
theorem cancel_ends (n : Nat) (d : DeferredId) (h : Steady client F w) :
    (cancel exec n d).Ends w fun r w' =>
      Steady client F w' ∧ Follows w w' ∧ (r = .ok () → ¬ w.Fired d ∧ w'.Fired d) := by
  induction n generalizing d F w with
  | zero => trivial
  | succ n ih =>
      refine .view ?_
      split
      · exact ⟨h, .refl w, nofun⟩
      · next hd =>
        refine (runCanceller_ends he (fun p => ih p h) h hd).bind ?_ ?_
        · intro result w₁ ⟨steady, after₁, unbound⟩
          refine (Deferred.reasonOf_gives result w₁).bind fun {reason w₂} ⟨hds, hc⟩ => ?_
          have hh : w₂.history = w₁.history := congrArg Prod.snd hc
          have after₂ : Follows w₁ w₂ := .of_eq hds hh
          have contained := after₁.later.contains (World.contains_of_not_fired hd)
          have unbound (hu : ¬ w₂.Fired d) (e : DeferredId) : ¬ w₂.Bound d e := fun hb =>
            unbound result rfl (mt (after₂.later.fired contained) hu) e
              (after₂.later.bound contained hb)
          refine (abort_gives he n reason (steady.congr hds hh) unbound).bind ?_
          intro _ w₃ ⟨steady, after₃, fired⟩
          exact ⟨steady.returned (h.idle hd steady),
            ((after₁.trans after₂).trans after₃).trans (.note (.refl w₃) rfl _),
            fun _ => ⟨hd, fired⟩⟩
        · exact fun ⟨steady, after, _⟩ => ⟨steady, after, nofun⟩

theorem listen_orderly (n : Nat) (d : DeferredId) (callback errback : Option κ) :
    Orderly client (listen exec n d callback errback) := by
  intro F w h
  refine .view ?_
  split
  · next contained =>
    let l := w.newListener callback errback
    let w₁ := (w.enlist d l).note (.registered d l)
    have after : Follows w w₁ := .note (.enlist contained l) rfl _
    have old : (w.addDeferred (some (.parent d))).2.deferred d = w.deferred d :=
      World.deferred_addDeferred_of_ne _ _ (World.ne_new _ contained)
    refine .modifyGet (.view (.modify ?_))
    split
    · next hd =>
      rw [old] at hd
      change (do notify exec n d; note (.returned d); pure l.promise).Ends w₁ _
      refine (notify_gives he n d (h.registerLate contained hd rfl)).bind ?_
      exact fun {_ w₂} ⟨steady, after', idle⟩ =>
        ⟨steady.returned fun _ => idle, (after.trans after').trans (.note (.refl w₂) rfl _)⟩
    · next hd =>
      rw [old] at hd
      change (do note (.returned d); pure l.promise).Ends w₁ _
      have unfired : ¬ w₁.Fired d := mt (fired_enlist_self contained rfl).1 hd
      exact ⟨(h.register hd rfl).returned (absurd · unfired),
        after.trans (.note (.refl w₁) rfl _)⟩
  · exact ⟨h.made nofun, .note (.addDeferred w none) rfl _⟩

end

theorem newDeferred_orderly (client : Client κ σ) (canceller : Option κ) :
    Orderly client (newDeferred canceller : Run κ (σ × History κ σ) DeferredId) := by
  intro F w h
  exact ⟨h.made (World.map_client_ne_parent canceller), .note (.addDeferred w _) rfl _⟩

/-! ## Whole runs -/

/-- Between the worlds that a run may reach, whatever is not about deferred results stays free. -/
theorem steadyLockstep (client : Client κ σ) (F : List Frame) (w₀ : World κ (σ × History κ σ)) :
    Lockstep (Heap.Step fun _ _ _ => True)
      (Run.Both fun w => Steady client F w ∧ Follows w₀ w) where
  heap h := by rw [h.1]
  cursors h := by rw [h.1]
  names h := by rw [h.1]
  deferreds h := by rw [h.1]
  wellKnown h := by rw [h.1]
  step := by
    rintro v _ h ⟨rfl, steady, after⟩ _
    exact ⟨rfl, steady.congr rfl rfl, after.trans (.of_eq rfl rfl)⟩
  move := by
    rintro v _ c ⟨rfl, steady, after⟩
    exact ⟨rfl, steady.congr rfl rfl, after.trans (.of_eq rfl rfl)⟩
  draw := by
    rintro v _ n ⟨rfl, steady, after⟩
    exact ⟨rfl, steady.congr rfl rfl, after.trans (.of_eq rfl rfl)⟩
  covers := Heap.Step.covers fun _ => trivial

end Recorded

/-- A run is orderly if it keeps whatever its start gives. -/
theorem orderly_iff_agree {client : Client κ σ} {x : Run κ (σ × History κ σ) α} :
    Orderly client x ↔ ∀ F w₀, Agree (Run.Both fun w => Steady client F w ∧ Follows w₀ w) x x := by
  constructor
  · intro h F w₀
    refine Run.keeps_iff_agree.1 fun w ⟨steady, after⟩ => (h steady).mono ?_
    exact fun ⟨steady, after'⟩ => ⟨steady, after.trans after'⟩
  · intro h F w steady
    exact Run.keeps_iff_agree.2 (h F w) w ⟨steady, .refl w⟩

namespace Recorded

section
variable {client : Client κ σ} {exec : Exec κ (σ × History κ σ)} (he : Faithful client exec)
include he

theorem perform_orderly (n : Nat) (r : Request κ α) : Orderly client (perform exec n r) := by
  by_cases hr : r.concernsDeferreds = false
  · rw [perform_of_not_concernsDeferreds exec n hr]
    refine orderly_iff_agree.2 fun F w₀ => ?_
    exact (steadyLockstep client F w₀).perform
      (fun _ _ => orderly_iff_agree.1 (he.orderly ..) F w₀) n hr
      (Request.within_step (fun _ => trivial) fun _ _ _ _ => trivial)
  · cases r with
    | newDeferred canceller => exact newDeferred_orderly client canceller
    | fire => exact fire_orderly he ..
    | listen => exact listen_orderly he ..
    | cancel d =>
        intro F w h
        exact (cancel_ends he n d h).mono fun ⟨steady, after, _⟩ => ⟨steady, after⟩
    | release d => exact fun _ w h => ⟨h.release d, .note (.release w d) rfl _⟩
    | _ => exact absurd rfl hr

theorem program_orderly (n : Nat) (p : Program κ σ) :
    Orderly client (p.unaware.runWith (perform exec n)) := by
  refine orderly_iff_agree.2 fun F w₀ => ?_
  refine (steadyLockstep client F w₀).runWith (fun h => by rw [h.1]) ?_
    (fun {_ r} _ => orderly_iff_agree.1 (perform_orderly he n r) F w₀) p p.all_true
  rintro v _ s ⟨rfl, steady, after⟩
  exact ⟨rfl, steady.congr rfl rfl, after.trans (.of_eq rfl rfl)⟩

end

theorem execute_orderly (client : Client κ σ) (n : Nat) (body : Body κ) (invocation : Invocation) :
    Orderly client (execute client n body invocation) := by
  induction n generalizing body invocation with
  | zero => exact fun _ _ _ => trivial
  | succ n ih =>
      refine orderly_iff_agree.2 fun F w₀ => ?_
      exact (steadyLockstep client F w₀).enter
        (fun _ _ => orderly_iff_agree.1
          (program_orderly ⟨ih, n, forgets_execute client n⟩ n _) F w₀)
        (fun _ _ => orderly_iff_agree.1 (ih ..) F w₀) body invocation

end Recorded

/-- A recorded run keeps the invariant. -/
theorem Program.record_orderly (client : Client κ σ) (fuel : Nat) (p : Program κ σ) :
    Orderly client (p.record client fuel) :=
  Recorded.program_orderly
    ⟨Recorded.execute_orderly client fuel, fuel, Recorded.forgets_execute client fuel⟩ fuel p

end Prototypal
