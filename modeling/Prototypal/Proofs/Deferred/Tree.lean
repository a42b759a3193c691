import Prototypal.Proofs.Deferred.Bookkeeping
import Prototypal.Proofs.Deferred.Evaluation

/-!
# Trees of registrations

What telling listeners keeps of a tree of promises whose handlers compute functions: the promises
that have fired show the issue that the path to them gives.
-/

namespace Prototypal

variable {κ σ : Type}

/-- The deferred results of a tree of registrations, each by the path to it from the root, whose
last step comes first. -/
abbrev Tree := List (List Nat × DeferredId)

namespace Tree

/-- Only a root. -/
def single (root : DeferredId) : Tree := [([], root)]

/-- The tree with another promise. -/
def add (tree : Tree) (path : List Nat) (d : DeferredId) : Tree := tree ++ [(path, d)]

/-- How many have not fired. -/
def pending (tree : Tree) (w : World κ σ) : Nat :=
  tree.countP fun x => !(w.deferred x.2).isFired

variable {w w' : World κ σ} {tree : Tree} {path path' : List Nat} {d d' root : DeferredId}

theorem mem_single : (path, d) ∈ single root ↔ path = [] ∧ d = root := by simp [single]

theorem mem_add :
    (path', d') ∈ tree.add path d ↔ (path', d') ∈ tree ∨ path' = path ∧ d' = d := by simp [add]

theorem length_add : (tree.add path d).length = tree.length + 1 := by simp [add]

/-- A promise of the tree is found by its path. -/
theorem exists_lookup (h : path ∈ tree.map Prod.fst) :
    ∃ d, tree.lookup path = some d ∧ (path, d) ∈ tree := by
  obtain ⟨x, hx, same⟩ := List.mem_map.1 h
  have found : (tree.lookup path).isSome :=
    List.lookup_isSome_iff.2 ⟨x, hx, beq_iff_eq.2 same.symm⟩
  obtain ⟨d, hd⟩ := Option.isSome_iff_exists.1 found
  obtain ⟨before, after, rfl, -⟩ := List.lookup_eq_some_iff.1 hd
  exact ⟨d, hd, List.mem_append_right _ (List.mem_cons_self ..)⟩

theorem pending_le (contained : ∀ x ∈ tree, w.containsDeferred x.2 = true) (later : w.Later w') :
    tree.pending w' ≤ tree.pending w := by
  refine List.countP_mono_left fun x hx unfired => ?_
  rw [Bool.not_eq_true', Bool.eq_false_iff] at unfired ⊢
  exact fun fired => unfired (later.fired (contained x hx) fired)

theorem pending_settle {c : DeferredId}
    (contained : ∀ x ∈ tree, w.containsDeferred x.2 = true) (hc : (path, c) ∈ tree)
    (unfired : ¬ w.Fired c) (s : Settlement) : tree.pending (w.settle c s) < tree.pending w := by
  have later : w.Later (w.settle c s) := .settle unfired s
  have fired : (w.settle c s).Fired c := (World.fired_settle (contained _ hc) s).2 (.inl rfl)
  obtain ⟨before, after, rfl⟩ := List.append_of_mem hc
  have first := pending_le (fun _ hx => contained _ (List.mem_append_left _ hx)) later
  have last := pending_le
    (fun _ hx => contained _ (List.mem_append_right before (List.mem_cons_of_mem _ hx))) later
  have old : (w.deferred c).isFired = false := Bool.eq_false_iff.2 unfired
  have new : ((w.settle c s).deferred c).isFired = true := fired
  simp only [pending, List.countP_append, List.countP_cons, old, new] at first last ⊢
  simp only [Bool.not_true, Bool.not_false, Bool.false_eq_true, if_true, if_false]
  omega

end Tree

/-- A world in which a tree of registrations stands, with the handlers of a plan, and in which
whatever has fired shows what the evaluation gives. -/
structure Tended (meaning : κ → Datum → Except Failure Datum) (plan : List Nat → Handlers κ)
    (start : Issue) (w₀ : World κ σ) (tree : Tree) (w : World κ σ) : Prop where
  ext : w₀.Extends w
  contained {path : List Nat} {d : DeferredId} : (path, d) ∈ tree → w.containsDeferred d = true
  alive {path : List Nat} {d : DeferredId} : (path, d) ∈ tree → ¬ w.Released d
  once {path path' : List Nat} {d : DeferredId} :
    (path, d) ∈ tree → (path', d) ∈ tree → path' = path
  chained {i : Nat} {path : List Nat} {c : DeferredId} : (i :: path, c) ∈ tree →
    ∃ d, (path, d) ∈ tree ∧ w.Chained c d
  queued {path : List Nat} {d : DeferredId} {l : Listener κ} : (path, d) ∈ tree → l ∈ w.queue d →
    ∃ i, (i :: path, l.promise.deferred) ∈ tree ∧ l.handlers = plan (i :: path)
  shows {path : List Nat} {d : DeferredId} {s : Settlement} : (path, d) ∈ tree →
    (w.deferred d).outcome = some s → s.Shows w₀.heap w.heap (evaluate meaning plan start path)

namespace Tended

variable {meaning : κ → Datum → Except Failure Datum} {plan : List Nat → Handlers κ}
  {start : Issue} {w₀ w w' : World κ σ} {tree : Tree} {path : List Nat} {c d : DeferredId}
  {s : Settlement}

theorem plant (w₀ : World κ σ) (canceller : Option (Canceller κ)) :
    Tended meaning plan start w₀ (.single (w₀.addDeferred canceller).1)
      (w₀.addDeferred canceller).2 where
  ext := ⟨.refl .., rfl⟩
  contained hd := by
    rw [World.containsDeferred_addDeferred, (Tree.mem_single.1 hd).2]
    simp
  alive hd hr := by
    rw [(Tree.mem_single.1 hd).2, World.Released, World.deferred_addDeferred_self] at hr
    cases hr
  once hd hd' := (Tree.mem_single.1 hd').1.trans (Tree.mem_single.1 hd).1.symm
  chained hc := nomatch (Tree.mem_single.1 hc).1
  queued hd hl := by
    rw [World.queue_addDeferred, (Tree.mem_single.1 hd).2, World.queue,
      World.deferred_of_not_contains (World.not_containsDeferred_addDeferred w₀ canceller)] at hl
    cases hl
  shows hd ho := by
    rw [(Tree.mem_single.1 hd).2, World.deferred_addDeferred_self] at ho
    cases ho

/-- A later world in which no listener is added and nothing released, as long as what fires
meanwhile shows its issue. -/
theorem later (t : Tended meaning plan start w₀ tree w) (ext : w.Extends w') (later : w.Later w')
    (released : ∀ {d}, w'.Released d → w.Released d)
    (queue : ∀ {d l}, l ∈ w'.queue d → l ∈ w.queue d)
    (shows : ∀ {path d s}, (path, d) ∈ tree → (w'.deferred d).outcome = some s →
      s.Shows w₀.heap w'.heap (evaluate meaning plan start path)) :
    Tended meaning plan start w₀ tree w' where
  ext := t.ext.trans ext
  contained hd := later.contains (t.contained hd)
  alive hd := mt released (t.alive hd)
  once := t.once
  chained hc := by
    obtain ⟨d, hd, chained⟩ := t.chained hc
    exact ⟨d, hd, (later.chained (t.contained hc)).2 chained⟩
  queued hd hl := t.queued hd (queue hl)
  shows := shows

theorem congr (t : Tended meaning plan start w₀ tree w) (ext : w.Extends w')
    (same : w'.deferreds = w.deferreds) : Tended meaning plan start w₀ tree w' := by
  have deferred := World.deferred_congr same
  refine t.later ext (.of_deferreds same) (fun hr => ?_) (fun hl => ?_) fun hd ho => ?_
  · rwa [World.Released, deferred] at hr
  · rwa [World.queue, deferred] at hl
  · exact (t.shows hd (deferred _ ▸ ho)).later ext.heap

theorem requeue (t : Tended meaning plan start w₀ tree w) (hd : w.containsDeferred d = true)
    {rest : Queue (Listener κ)} (sub : ∀ l ∈ rest.toList, l ∈ w.queue d) :
    Tended meaning plan start w₀ tree (w.requeue d rest) := by
  refine t.later ⟨.refl .., rfl⟩ (.requeue hd rest) (World.released_requeue hd rest).1
    (fun {e l} hl => ?_) fun he ho => ?_
  · rw [World.queue_requeue hd] at hl
    split at hl
    · next same => exact same ▸ sub l hl
    · exact hl
  · exact t.shows he (World.outcome_requeue hd rest ▸ ho)

theorem settle (t : Tended meaning plan start w₀ tree w) (hc : (path, c) ∈ tree)
    (unfired : ¬ w.Fired c)
    (shows : s.Shows w₀.heap w.heap (evaluate meaning plan start path)) :
    Tended meaning plan start w₀ tree (w.settle c s) := by
  have contained := t.contained hc
  refine t.later ⟨.refl .., rfl⟩ (.settle unfired s) (World.released_settle contained s).1
    (fun hl => ?_) fun {path' e s'} he ho => ?_
  · rwa [World.queue_settle contained] at hl
  · rw [World.settle, World.deferred_setDeferred _ contained] at ho
    split at ho
    · next same =>
      cases ho
      cases t.once hc (same ▸ he)
      exact shows
    · exact t.shows he ho

/-- Another registration on a promise of the tree. -/
theorem enlist (t : Tended meaning plan start w₀ tree w) (hd : (path, d) ∈ tree) (i : Nat)
    {l : Listener κ}
    (hl : l = w.newListener (plan (i :: path)).callback (plan (i :: path)).errback) :
    Tended meaning plan start w₀ (tree.add (i :: path) l.promise.deferred) (w.enlist d l) := by
  have contained := t.contained hd
  have old {path' : List Nat} {e : DeferredId} (he : (path', e) ∈ tree) :
      e ≠ l.promise.deferred := World.ne_newListener hl (t.contained he)
  have chained : (w.enlist d l).Chained l.promise.deferred d :=
    (World.chained_enlist contained hl).2 (.inl ⟨rfl, rfl⟩)
  have idle : w.queue l.promise.deferred = [] := by
    have absent : w.containsDeferred l.promise.deferred = false := by
      subst hl
      exact World.not_containsDeferred_addDeferred w none
    rw [World.queue, World.deferred_of_not_contains absent]
    rfl
  have containedAll {path' : List Nat} {e : DeferredId}
      (he : (path', e) ∈ tree.add (i :: path) l.promise.deferred) :
      (w.enlist d l).containsDeferred e = true := by
    rcases Tree.mem_add.1 he with he | ⟨-, rfl⟩
    · exact World.containsDeferred_enlist (t.contained he)
    · exact World.contains_of_chained chained
  exact {
    ext := ⟨t.ext.heap, t.ext.wellKnown⟩
    contained := containedAll
    alive := fun he hr => by
      rw [World.released_enlist contained] at hr
      rcases Tree.mem_add.1 he with he | ⟨-, rfl⟩
      · exact t.alive he hr
      · exact absurd rfl (World.ne_newListener hl (World.contains_of_released hr))
    once := fun he he' => by
      rcases Tree.mem_add.1 he with he | ⟨rfl, rfl⟩
      · rcases Tree.mem_add.1 he' with he' | ⟨-, rfl⟩
        · exact t.once he he'
        · exact absurd rfl (old he)
      · rcases Tree.mem_add.1 he' with he' | ⟨rfl, -⟩
        · exact absurd rfl (old he')
        · rfl
    chained := fun hc => by
      rcases Tree.mem_add.1 hc with hc | ⟨same, rfl⟩
      · obtain ⟨e, he, chained⟩ := t.chained hc
        exact ⟨e, Tree.mem_add.2 (.inl he), (World.chained_enlist contained hl).2 (.inr chained)⟩
      · cases same
        exact ⟨d, Tree.mem_add.2 (.inl hd), chained⟩
    -- Only the queue of `d` has a new listener, and nobody listens to the new promise yet.
    queued := fun {path' e l'} he hq => by
      rw [World.queue_enlist contained] at hq
      rcases Tree.mem_add.1 he with he | ⟨-, rfl⟩
      · split at hq
        · next same =>
          subst same
          cases t.once hd he
          rcases List.mem_append.1 hq with hq | hq
          · obtain ⟨j, hj, same⟩ := t.queued hd hq
            exact ⟨j, Tree.mem_add.2 (.inl hj), same⟩
          · cases List.mem_singleton.1 hq
            exact ⟨i, Tree.mem_add.2 (.inr ⟨rfl, rfl⟩), hl ▸ rfl⟩
        · obtain ⟨j, hj, same⟩ := t.queued he hq
          exact ⟨j, Tree.mem_add.2 (.inl hj), same⟩
      · rw [if_neg (old hd).symm, idle] at hq
        cases hq
    shows := fun {path' e s} he ho => by
      obtain ⟨hw, ho⟩ := World.outcome_enlist contained hl (containedAll he) ho
      rcases Tree.mem_add.1 he with he | ⟨-, rfl⟩
      · exact t.shows he ho
      · exact absurd rfl (World.ne_newListener hl hw) }

end Tended

/-! ## Telling listeners -/

namespace Deferred

variable {meaning : κ → Datum → Except Failure Datum} {plan : List Nat → Handlers κ}
  {start : Issue} {exec : Exec κ σ} {w₀ : World κ σ} {tree : Tree} {path : List Nat}
  {d : DeferredId} {F : List Frame} {w : World κ σ}

/-- Telling the listeners of a promise of the tree comes to an end, as long as there is fuel for
everything that is pending. -/
theorem notify_tends (pure : ∀ path, (plan path).Compute meaning exec w₀) (n : Nat)
    (wired : Wired (⟨d, none⟩ :: F) w) (t : Tended meaning plan start w₀ tree w)
    (hd : (path, d) ∈ tree) (fuel : tree.pending w < n) :
    (notify exec n d).Succeeds w fun _ w' =>
      Wired F w' ∧ Tended meaning plan start w₀ tree w' ∧ w.Later w' := by
  induction n generalizing d path F w with
  | zero => exact absurd fuel (Nat.not_lt_zero _)
  | succ n ih =>
      have contained := t.contained hd
      refine .view ?_
      split
      · next s l rest hs hp =>
        have queue : w.queue d = l :: rest.toList := Queue.toList_of_pop? hp
        obtain ⟨i, placed, handlers⟩ := t.queued hd (queue ▸ List.mem_cons_self ..)
        have t₁ := t.requeue contained fun _ hl => queue ▸ List.mem_cons_of_mem _ hl
        refine .modify ((handle_yields (handlers ▸ pure _) t₁.ext (t.shows hd hs)).bind ?_)
        intro result w₂ ⟨yields, ext₂, same₂⟩
        refine (settlementOf_shows (t₁.ext.trans ext₂) yields).bind ?_
        intro s' w₃ ⟨shows, ext₃, same₃⟩
        have same : w₃.deferreds = (w.requeue d rest).deferreds := same₃.trans same₂
        have held := (wired.take hp).congr same
        have t₃ := t₁.congr (ext₂.trans ext₃) same
        have later₃ : w.Later w₃ := .trans (.requeue contained rest) (.of_deferreds same)
        have unfired : ¬ w₃.Fired l.promise.deferred :=
          ((held.held (List.mem_cons_self ..)).1.awaits (t₃.alive hd)).2
        -- The promise shows the issue of the path that is one step longer, and pends no more.
        have settled := t₃.settle placed unfired (handlers ▸ shows)
        have less : tree.pending (w₃.settle l.promise.deferred s') < n := by
          have := Tree.pending_le (fun x hx => t.contained hx) later₃
          have := Tree.pending_settle (fun x hx => t₃.contained hx) placed unfired s'
          omega
        have delivers : (fireWith (notify exec n) l.promise.deferred s').Succeeds w₃ fun _ w' =>
            Wired (⟨d, none⟩ :: F) w' ∧ Tended meaning plan start w₀ tree w' ∧
              (w₃.settle l.promise.deferred s').Later w' := by
          refine .view ?_
          rw [if_neg (show ¬ (w₃.deferred l.promise.deferred).isFired = true from unfired)]
          exact .modify (ih (held.deliver s') settled placed less)
        refine (delivers.attempt.mono fun ⟨_, _, kept⟩ => kept).discard.bind ?_
        intro _ w₄ ⟨wired₄, t₄, later₄⟩
        have left := Tree.pending_le (fun x hx => settled.contained hx) later₄
        refine (ih wired₄ t₄ hd (Nat.lt_of_le_of_lt left less)).mono fun ⟨wired, t, later⟩ => ?_
        exact ⟨wired, t, ((later₃.trans (.settle unfired s')).trans later₄).trans later⟩
      · next done =>
        have idle := World.queue_eq_nil (wired.framed (List.mem_cons_self ..)).2 done
        exact ⟨(), w, rfl, wired.leave idle, t, .refl w⟩

end Deferred

end Prototypal
