import Prototypal.Proofs.Deferred.Runs
import Prototypal.Proofs.Reached

/-!
# Runs keep deferred results wired

Whatever loops are open when an operation starts, the deferred results are wired under the same
loops when it ends, and none lost its outcome.  So they are wired in every world that is reached.
-/

namespace Prototypal

variable {κ σ α : Type}

/-! ## What is kept -/

/-- A world that a run may come to from `w₀` while the loops `F` are open, if its client keeps the
property `Q` of its state. -/
structure Kept (Q : σ → Prop) (F : List Frame) (w₀ w : World κ σ) : Prop where
  wired : Wired F w
  later : w₀.Later w
  client : Q w.client

namespace Kept

variable {Q : σ → Prop} {F : List Frame} {w₀ w w' : World κ σ} {d : DeferredId}

theorem start (h : Wired F w) (hq : Q w.client) : Kept Q F w w := ⟨h, .refl w, hq⟩

theorem trans (h : Kept Q F w₀ w) (h' : Kept Q F w w') : Kept Q F w₀ w' :=
  ⟨h'.wired, h.later.trans h'.later, h'.client⟩

/-- Nothing else of the world matters. -/
theorem congr (h : Kept Q F w₀ w) (hd : w'.deferreds = w.deferreds)
    (hc : w'.client = w.client) : Kept Q F w₀ w' :=
  ⟨h.wired.congr hd, h.later.trans (.of_deferreds hd), hc ▸ h.client⟩

end Kept

/-- Whatever loops are open, the run keeps what its start gives. -/
def Balanced (Q : σ → Prop) (x : Run κ σ α) : Prop := ∀ F w₀, Run.Keeps (Kept Q F w₀) x

namespace Deferred

variable {Q : σ → Prop} {exec : Exec κ σ} {F : List Frame} {w₀ w : World κ σ} {d : DeferredId}

section
variable (he : ∀ body invocation, Balanced Q (exec body invocation))
include he

/-! ## Notification -/

theorem handle_balanced (l : Listener κ) (s : Settlement) : Balanced Q (handle exec l s) := by
  intro F w₀ w h
  unfold handle
  split
  · exact he _ _ F w₀ w h
  · exact h

/-- Telling the listeners of a deferred closes the loop over them. -/
theorem notify_gives (n : Nat) (d : DeferredId) {F : List Frame} {w₀ w : World κ σ}
    (h : Kept Q (⟨d, none⟩ :: F) w₀ w) :
    (notify exec n d).Gives w fun _ w' => Kept Q F w₀ w' := by
  induction n generalizing d F w with
  | zero => trivial
  | succ n ih =>
      obtain ⟨contained, fired⟩ := h.wired.framed (List.mem_cons_self ..)
      refine .view ?_
      split
      · next s l rest hs hp =>
        have taken : Kept Q (⟨d, some l.promise.deferred⟩ :: F) w₀ (w.requeue d rest) :=
          ⟨h.wired.take hp, h.later.trans (.requeue contained rest), h.client⟩
        refine .modify (Run.Ends.attempt (handle_balanced he l s _ w₀ _ taken) ?_)
        intro result w₂ handled
        refine (settlementOf_gives result w₂).bind fun {s w₃} ⟨hd, hc, _⟩ => ?_
        have held : Kept Q (⟨d, some l.promise.deferred⟩ :: F) w₀ w₃ := handled.congr hd hc
        have delivers : (fireWith (notify exec n) l.promise.deferred s).Ends w₃ fun _ w' =>
            Kept Q (⟨d, none⟩ :: F) w₀ w' := by
          refine .view ?_
          split
          · next fired => exact ⟨held.wired.refuse fired, held.later, held.client⟩
          · next unfired =>
            have settled : Kept Q (⟨l.promise.deferred, none⟩ :: ⟨d, none⟩ :: F) w₀
                (w₃.settle l.promise.deferred s) :=
              ⟨held.wired.deliver s, held.later.trans (.settle unfired s), held.client⟩
            exact .modify (Run.Ends.mono (ih _ settled) fun ⟨_, _, kept⟩ => kept)
        exact (Run.Gives.attempt delivers).discard.bind fun kept => ih d kept
      · next done =>
        exact ⟨(), rfl, h.wired.leave (World.queue_eq_nil fired done), h.later, h.client⟩

/-! ## The use of a deferred -/

/-- Setting the outcome of a deferred that cancels no other one, and telling its listeners. -/
theorem settle_gives (n : Nat) (h : Kept Q F w₀ w) (hd : ¬ w.Fired d)
    (hu : ∀ e, ¬ w.Bound d e) (s : Settlement) :
    (do Run.modify (·.setDeferred d { w.deferred d with outcome := some s })
        notify exec n d : Run κ σ Unit).Gives w fun _ w' => Kept Q F w₀ w' ∧ w'.Fired d := by
  have contained := World.contains_of_not_fired hd
  have settled : Kept Q (⟨d, none⟩ :: F) (w.settle d s) (w.settle d s) :=
    .start (h.wired.fire contained hu s) h.client
  have fired : (w.settle d s).Fired d := (World.fired_settle contained s).2 (.inl rfl)
  refine .modify ((notify_gives he n d settled).mono fun kept => ?_)
  refine ⟨⟨kept.wired, (h.later.trans (.settle hd s)).trans kept.later, kept.client⟩, ?_⟩
  exact kept.later.fired (by rwa [World.containsDeferred_settle]) fired

theorem fire_balanced (n : Nat) (d : DeferredId) (s : Settlement) :
    Balanced Q (fire exec n d s) := by
  intro F w₀ w h
  refine .view ?_
  split
  · exact h
  · next unchained =>
    have unbound (e : DeferredId) : ¬ w.Bound d e := fun hb =>
      unchained (World.isChained_iff.2 ⟨e, hb.1⟩)
    refine .view ?_
    split
    · exact h
    · next hd =>
      refine Run.Ends.mono (settle_gives he n h hd unbound s) fun given => ?_
      obtain ⟨_, _, kept, _⟩ := given
      exact kept

theorem abort_gives (n : Nat) (reason : Value) (h : Kept Q F w₀ w)
    (hu : ¬ w.Fired d → ∀ e, ¬ w.Bound d e) :
    (abort (notify exec n) d reason).Gives w fun _ w' => Kept Q F w₀ w' ∧ w'.Fired d := by
  refine .view ?_
  split
  · next fired => exact ⟨(), rfl, h, fired⟩
  · next hd => exact settle_gives he n h hd (hu hd) _

/-- A canceller leaves its deferred fired, or cancels no other one through it. -/
theorem runCanceller_ends {cancel : DeferredId → Run κ σ Unit} (h : Kept Q F w w)
    (hc : ∀ p, (cancel p).Ends w fun r w' =>
      Kept Q F w w' ∧ (r = .ok () → ¬ w.Fired p ∧ w'.Fired p)) (hd : ¬ w.Fired d) :
    (runCanceller exec cancel d (w.deferred d).canceller).Ends w fun r w' =>
      Kept Q F w w' ∧ ∀ a, r = .ok a → ¬ w'.Fired d → ∀ e, ¬ w'.Bound d e := by
  have contained := World.contains_of_not_fired hd
  match hk : (w.deferred d).canceller with
  | none =>
      refine ⟨h, fun _ _ _ e hb => ?_⟩
      cases hk.symm.trans hb.1
  | some (.client code) =>
      refine (he _ _ F w w h).mono fun kept => ⟨kept, fun _ _ _ e hb => ?_⟩
      cases hk.symm.trans (kept.later.bound contained hb).1
  | some (.parent p) =>
      refine .view ?_
      split
      · next released =>
        refine ⟨h, fun _ _ _ e hb => hb.2 ?_⟩
        cases hk.symm.trans hb.1
        exact released
      · refine (hc p).bind (fun ⟨kept, fired⟩ => ?_) fun ⟨kept, _⟩ => ⟨kept, nofun⟩
        obtain ⟨unfired, fired⟩ := fired rfl
        refine ⟨kept, fun _ _ hu => absurd ?_ hu⟩
        exact h.wired.chainedFired unfired kept.wired fired ((kept.later.chained contained).2 hk)

/-- Cancelling succeeds for unfired deferred results only and leaves them fired. -/
theorem cancel_ends (n : Nat) (d : DeferredId) (h : Kept Q F w w) :
    (cancel exec n d).Ends w fun r w' =>
      Kept Q F w w' ∧ (r = .ok () → ¬ w.Fired d ∧ w'.Fired d) := by
  induction n generalizing d with
  | zero => trivial
  | succ n ih =>
      refine .view ?_
      split
      · exact ⟨h, nofun⟩
      · next hd =>
        have contained := World.contains_of_not_fired hd
        refine (runCanceller_ends he h ih hd).bind ?_ fun ⟨kept, _⟩ => ⟨kept, nofun⟩
        intro result w₁ ⟨kept₁, unbound⟩
        refine (reasonOf_gives result w₁).bind fun {reason w₂} ⟨hds, hc⟩ => ?_
        have kept₂ := kept₁.congr hds hc
        have later : w₁.Later w₂ := .of_deferreds hds
        have contained := kept₁.later.contains contained
        have unbound (hu : ¬ w₂.Fired d) (e : DeferredId) : ¬ w₂.Bound d e := fun hb =>
          unbound result rfl (mt (later.fired contained) hu) e (later.bound contained hb)
        refine Run.Ends.mono (abort_gives he n reason kept₂ unbound) ?_
        exact fun ⟨_, _, kept, fired⟩ => ⟨kept, fun _ => ⟨hd, fired⟩⟩

theorem listen_balanced (n : Nat) (d : DeferredId) (callback errback : Option κ) :
    Balanced Q (listen exec n d callback errback) := by
  intro F w₀ w h
  refine .view ?_
  split
  · next contained =>
    let l := w.newListener callback errback
    have old : (w.addDeferred (some (.parent d))).2.deferred d = w.deferred d :=
      World.deferred_addDeferred_of_ne _ _ (World.ne_new _ contained)
    have later : w₀.Later (w.enlist d l) := h.later.trans (.enlist contained l)
    refine .modifyGet (.view (.modify ?_))
    split
    · next hd =>
      rw [old] at hd
      have wired : Wired (⟨d, none⟩ :: F) (w.enlist d l) :=
        (h.wired.enter contained hd).register contained (fun _ => List.mem_cons_self ..) rfl
      change (do notify exec n d; pure l.promise : Run κ σ Promise).Ends (w.enlist d l) _
      exact (notify_gives he n d ⟨wired, later, h.client⟩).bind fun kept => kept
    · next hd =>
      rw [old] at hd
      have wired : Wired F (w.enlist d l) := h.wired.register contained (absurd · hd) rfl
      exact (⟨wired, later, h.client⟩ : Kept Q F w₀ (w.enlist d l))
  · exact ⟨h.wired.add nofun, h.later.trans (.addDeferred ..), h.client⟩

end

end Deferred

/-! ## Whole runs -/

section
variable {Q : σ → Prop}

/-- Between the worlds that a run may reach, whatever is not about deferred results stays free. -/
theorem keptLockstep (F : List Frame) (w₀ : World κ σ) :
    Lockstep (Heap.Step fun _ _ _ => True) (Run.Both (Kept Q F w₀)) where
  heap h := by rw [h.1]
  cursors h := by rw [h.1]
  names h := by rw [h.1]
  deferreds h := by rw [h.1]
  wellKnown h := by rw [h.1]
  step := by
    rintro v _ h ⟨rfl, kept⟩ _
    exact ⟨rfl, kept.congr rfl rfl⟩
  move := by
    rintro v _ c ⟨rfl, kept⟩
    exact ⟨rfl, kept.congr rfl rfl⟩
  draw := by
    rintro v _ n ⟨rfl, kept⟩
    exact ⟨rfl, kept.congr rfl rfl⟩
  covers := Heap.Step.covers fun _ => trivial

theorem perform_balanced {exec : Exec κ σ}
    (he : ∀ body invocation, Balanced Q (exec body invocation)) (n : Nat) (r : Request κ α) :
    Balanced Q (perform exec n r) := by
  intro F w₀
  by_cases hr : r.concernsDeferreds = false
  · refine Run.keeps_iff_agree.2 ((keptLockstep F w₀).perform ?_ n hr
      (Request.within_step (fun _ => trivial) fun _ _ _ _ => trivial))
    exact fun _ _ => Run.keeps_iff_agree.1 (he _ _ F w₀)
  · intro w h
    cases r with
    | newDeferred canceller =>
        have wired := h.wired.add (World.map_client_ne_parent canceller)
        exact ⟨wired, h.later.trans (.addDeferred ..), h.client⟩
    | fire => exact Deferred.fire_balanced he _ _ _ F w₀ w h
    | listen => exact Deferred.listen_balanced he _ _ _ _ F w₀ w h
    | cancel d =>
        exact (Deferred.cancel_ends he n d (.start h.wired h.client)).mono
          fun ⟨kept, _⟩ => h.trans kept
    | release d =>
        exact ⟨h.wired.release d, h.later.trans (.release w d), h.client⟩
    | _ => exact absurd rfl hr

end

namespace Watched

/-- Deferred results were wired whenever a run was watched. -/
def WiredThroughout (s : σ × List (World κ σ)) : Prop := ∀ v ∈ s.2, ∃ F, Wired F v

theorem look_kept {F : List Frame} {w₀ w : World κ (σ × List (World κ σ))}
    (h : Kept WiredThroughout F w₀ w) : Kept WiredThroughout F w₀ w.look where
  wired := h.wired.congr rfl
  later := h.later.trans (.of_deferreds rfl)
  client := List.forall_mem_cons.2 ⟨⟨F, h.wired.congr rfl⟩, h.client⟩

/-- What a watched run keeps, whatever loops are open and wherever it starts. -/
abbrev Keeps (κ σ : Type) (i : List Frame × World κ (σ × List (World κ σ))) :
    World κ (σ × List (World κ σ)) → Prop :=
  Kept WiredThroughout i.1 i.2

theorem act_kept {F : List Frame} {w₀ w : World κ (σ × List (World κ σ))} (s : σ)
    (h : Kept WiredThroughout F w₀ w) :
    Kept WiredThroughout F w₀ { w with client := (s, w.seen) } :=
  ⟨h.wired.congr rfl, h.later.trans (.of_deferreds rfl), h.client⟩

theorem execute_balanced (client : Client κ σ) (n : Nat) (body : Body κ) (invocation : Invocation) :
    Balanced WiredThroughout (execute client n body invocation) := by
  intro F w₀
  exact keeps_execute (P := Keeps κ σ) (fun i => keptLockstep i.1 i.2) look_kept act_kept
    (fun he n _ r i => perform_balanced (fun body invocation F w₀ => he (F, w₀) body invocation)
      n r i.1 i.2) client n (F, w₀) body invocation

end Watched

/-- In every world that is reached, the deferred results are wired. -/
theorem World.Reached.wired {w : World κ σ} (hw : w.Reached) : ∃ F, Wired F w := by
  obtain ⟨τ, client, fuel, p, source, t, v, hv, u, hu, same⟩ := hw
  have keeps := Program.watch_keeps (P := Watched.Keeps κ τ) (fun i => keptLockstep i.1 i.2)
    Watched.look_kept Watched.act_kept
    (fun he n _ r i => perform_balanced (fun body invocation F w₀ => he (F, w₀) body invocation)
      n r i.1 i.2) client fuel p ([], (World.boot source t).watched)
  have start : Kept Watched.WiredThroughout [] (World.boot source t : World κ τ).watched
      (World.boot source t : World κ τ).watched :=
    .start (.empty (World.deferreds_boot source t)) nofun
  obtain ⟨F, wired⟩ := ((keeps _ start).world? v hv).client u hu
  exact ⟨F, wired.congr (same ▸ rfl)⟩

/-- What client code does keeps the deferred results wired. -/
theorem execute_balanced (client : Client κ σ) (n : Nat) (body : Body κ) (invocation : Invocation) :
    Balanced (fun _ => True) (execute client n body invocation) := by
  intro F w₀ w h
  have watched := Watched.execute_balanced client n body invocation F w.watched w.watched
    (.start (h.wired.congr rfl) nofun)
  have forgets : Outcome.Agree Watched.Forgets
      (Watched.execute client n body invocation w.watched) (execute client n body invocation w) :=
    Watched.forgets_execute client n body invocation rfl
  refine watched.transfer forgets fun {_ v w'} kept (same : v.unwatched = w') => ?_
  subst same
  have later : w.Later w.watched := .of_deferreds rfl
  exact ⟨kept.wired.congr rfl,
    h.later.trans ((later.trans kept.later).trans (.of_deferreds rfl)), trivial⟩

end Prototypal
