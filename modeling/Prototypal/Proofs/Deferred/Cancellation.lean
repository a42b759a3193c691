import Prototypal.Proofs.DataProperty
import Prototypal.Proofs.Deferred.Balance

/-!
# Cancelling a promise

To cancel a promise is to cancel the deferred that gave it, and so on up to the root: it ends in the
same way, and then all promises of the root have fired.
-/

namespace Prototypal

variable {κ σ : Type}

/-! ## More fuel -/

namespace Deferred

variable {exec : Exec κ σ}

theorem fireWith_below {notify notify' : DeferredId → Run κ σ Unit}
    (hn : ∀ d, (notify d).Below (notify' d)) (d : DeferredId) (s : Settlement) :
    (fireWith notify d s).Below (fireWith notify' d s) := by
  refine .bind (.refl _) fun deferred => ?_
  split
  · exact .refl _
  · exact .bind (.refl _) fun _ => hn d

theorem notify_below (n : Nat) (d : DeferredId) :
    (notify exec n d).Below (notify exec (n + 1) d) := by
  induction n generalizing d with
  | zero => exact .exhausted _
  | succ n ih =>
      refine .bind (.refl _) fun deferred => ?_
      split
      · refine .bind (.refl _) fun _ => .bind (.refl _) fun result => .bind (.refl _) fun s => ?_
        exact (fireWith_below ih _ s).attempt.discard.bind fun _ => ih d
      · exact .refl _

theorem runCanceller_below {cancel cancel' : DeferredId → Run κ σ Unit}
    (hc : ∀ d, (cancel d).Below (cancel' d)) (d : DeferredId) (canceller : Option (Canceller κ)) :
    (runCanceller exec cancel d canceller).Below (runCanceller exec cancel' d canceller) := by
  match canceller with
  | none => exact .refl _
  | some (.client _) => exact .refl _
  | some (.parent p) =>
      refine .bind (.refl _) fun deferred => ?_
      split
      · exact .refl _
      · exact (hc p).bind fun _ => .refl _

theorem abort_below {notify notify' : DeferredId → Run κ σ Unit}
    (hn : ∀ d, (notify d).Below (notify' d)) (d : DeferredId) (reason : Value) :
    (abort notify d reason).Below (abort notify' d reason) := by
  refine .bind (.refl _) fun deferred => ?_
  split
  · exact .refl _
  · exact .bind (.refl _) fun _ => hn d

theorem cancel_below_succ (n : Nat) (d : DeferredId) :
    (cancel exec n d).Below (cancel exec (n + 1) d) := by
  induction n generalizing d with
  | zero => exact .exhausted _
  | succ n ih =>
      refine .bind (.refl _) fun deferred => ?_
      split
      · exact .refl _
      · refine (runCanceller_below ih d _).bind fun result => .bind (.refl _) fun reason => ?_
        exact abort_below (notify_below n) d reason

/-- A cancellation that ends does the same with more fuel. -/
theorem cancel_below {n m : Nat} (h : n ≤ m) (d : DeferredId) :
    (cancel exec n d).Below (cancel exec m d) := by
  induction h with
  | refl => exact .refl _
  | step _ ih => exact ih.trans (cancel_below_succ _ d)

end Deferred

/-! ## Up to the root -/

namespace World

/-- `d` is the deferred of a promise that came from the root by `k` registrations in a row, and
something refers to all those above it. -/
inductive Descends (w : World κ σ) (root : DeferredId) : DeferredId → Nat → Prop
  | root : Descends w root root 0
  | promise {c d : DeferredId} {k : Nat} (bound : w.Bound c d) (above : Descends w root d k) :
      Descends w root c (k + 1)

/-- Another world is this one but for objects that were made meanwhile. -/
structure Grown (v w : World κ σ) : Prop where
  heap : v.heap.Leaves (v.heap.contains · = true) w.heap
  rest : w = { v with heap := w.heap }

variable {u v w : World κ σ} {root d : DeferredId} {k : Nat}

theorem Grown.refl (w : World κ σ) : w.Grown w := ⟨.refl .., rfl⟩

theorem Grown.trans (h : u.Grown v) (h' : v.Grown w) : u.Grown w where
  heap := h.heap.trans (h'.heap.mono fun _ ho => h.heap.contains ho)
  rest := by
    rw [h'.rest, h.rest]

theorem Grown.allocate (w : World κ σ) (object : Object κ) :
    w.Grown { w with heap := (w.heap.allocate object).2 } :=
  ⟨.allocate .., rfl⟩

/-- Promises fire after the root. -/
theorem Descends.fired_root {F : List Frame} (wired : Wired F w) (h : w.Descends root d k)
    (hd : w.Fired d) : w.Fired root := by
  induction h with
  | root => exact hd
  | promise bound _ ih => exact ih (wired.parentFired bound hd)

end World

namespace Deferred

open World (Grown)

variable {Q : σ → Prop} {exec : Exec κ σ} {F : List Frame} {w w' : World κ σ}
  {root c d : DeferredId} {k : Nat}

theorem cancel_of_fired (hd : w.Fired d) (n : Nat) :
    cancel exec (n + 1) d w = .fault .alreadyFinished w := by
  have fired : (w.deferred d).isFired = true := hd
  rw [cancel, Run.view_bind, if_pos fired]
  rfl

theorem abort_of_fired {notify : DeferredId → Run κ σ Unit} (hd : w.Fired d) (reason : Value) :
    abort notify d reason w = .value () w := by
  have fired : (w.deferred d).isFired = true := hd
  rw [abort, Run.view_bind, if_pos fired]
  rfl

/-- What is left to do for a promise when the deferred that gave it is cancelled. -/
theorem cancel_of_bound (hc : w.Bound c d) (fired : ¬ w.Fired c) (n : Nat) :
    cancel exec (n + 1) c w =
      (do cancel exec n d
          abort (notify exec n) c (← Run.reify .cancelled) : Run κ σ Unit) w := by
  have unfired : ¬ (w.deferred c).isFired = true := fired
  have chained : (w.deferred c).canceller = some (.parent d) := hc.1
  have alive : ¬ (w.deferred d).released = true := hc.2
  rw [cancel, Run.view_bind, if_neg unfired, chained, runCanceller, bind_assoc, Run.view_bind,
    if_neg alive, bind_assoc]
  rfl

section
variable (he : ∀ body invocation, Balanced Q (exec body invocation)) (h : Kept Q F w w)
include he h

/-- To cancel a promise is to cancel the deferred that gave it. -/
theorem cancel_bound (hc : w.Bound c d) (n : Nat) :
    (cancel exec (n + 1) d w).Agree Grown (cancel exec (n + 2) c w) := by
  by_cases fired : w.Fired c
  · rw [cancel_of_fired fired, cancel_of_fired (h.wired.parentFired hc fired)]
    exact .fault (.refl w)
  · have ends := cancel_ends he (n + 1) d h
    rw [cancel_of_bound hc fired]
    cases ran : cancel exec (n + 1) d w with
    | value _ w' =>
        obtain ⟨kept, fires⟩ := ends.of_value ran
        obtain ⟨unfired, told⟩ := fires rfl
        -- The promise was told when the deferred fired, so there is nothing left to settle.
        have told : w'.Fired c := h.wired.chainedFired unfired kept.wired told
          ((kept.later.chained (World.contains_of_chained hc.1)).2 hc.1)
        rw [Run.bind_of_value ran]
        obtain ⟨object, reason, reified⟩ : ∃ object reason, Run.reify .cancelled w' =
            .value reason { w' with heap := (w'.heap.allocate object).2 } := ⟨_, _, rfl⟩
        have told : ({ w' with heap := (w'.heap.allocate object).2 } : World κ σ).Fired c := told
        rw [Run.bind_of_value reified, abort_of_fired told]
        exact .value (.allocate w' object)
    | fault f w' =>
        rw [Run.bind_of_fault ran]
        exact .fault (.refl w')
    | exhausted =>
        rw [Run.bind_apply, ran]
        exact .exhausted

/-- Up to the root. -/
theorem cancel_descendant (hd : w.Descends root d k) (n : Nat) :
    (cancel exec (n + 1) root w).Agree Grown (cancel exec (n + 1 + k) d w) := by
  induction hd with
  | root => exact .refl World.Grown.refl _
  | @promise c d k bound above ih =>
      have step := cancel_bound he h bound (n + k)
      rw [Nat.add_right_comm n k 1, show n + k + 2 = n + 1 + (k + 1) by omega] at step
      exact ih.trans step Grown.trans

/-- A cancellation that succeeds leaves all promises of the deferred fired. -/
theorem cancel_fires {n : Nat} (hc : cancel exec n root w = .value () w')
    (hd : w.Descends root d k) : w'.Fired d := by
  obtain ⟨kept, fired⟩ := (cancel_ends he n root h).of_value hc
  obtain ⟨unfired, fired⟩ := fired rfl
  induction hd with
  | root => exact fired
  | promise bound above ih =>
      have contained := World.contains_of_chained bound.1
      exact h.wired.chainedFired (mt (above.fired_root h.wired) unfired) kept.wired ih
        ((kept.later.chained contained).2 bound.1)

end

end Deferred

open Deferred in
/-- Cancelling a promise, however far below its root, is cancelling the root, as long as something
refers to all those in between: one ends if the other does, with the same result or the same fault,
and in the same world but for error objects that more cancellations made.  If it succeeds,
everything below the root has fired. -/
theorem perform_cancel_descendant {client : Client κ σ} {root d : DeferredId} {k : Nat}
    {w : World κ σ} (m : Nat) (hw : w.Reached) (hd : w.Descends root d k) :
    let cancelled (n : Nat) (d : DeferredId) := perform (execute client m) n (.cancel d) w
    ((∃ n, cancelled n root ≠ .exhausted) ↔ ∃ n, cancelled n d ≠ .exhausted) ∧
    (∀ n n', cancelled n root ≠ .exhausted → cancelled n' d ≠ .exhausted →
      (cancelled n root).Agree World.Grown (cancelled n' d)) ∧
    ∀ n w', cancelled n d = .value () w' → ∀ e j, w.Descends root e j → w'.Fired e := by
  intro cancelled
  obtain ⟨F, wired⟩ := hw.wired
  have he := execute_balanced client m
  have kept : Kept (fun _ => True) F w w := .start wired trivial
  have agree (n : Nat) : (cancelled (n + 1) root).Agree World.Grown (cancelled (n + 1 + k) d) :=
    cancel_descendant he kept hd n
  have more {n n' : Nat} {d : DeferredId} (hn : n ≤ n') (h : cancelled n d ≠ .exhausted) :
      cancelled n d = cancelled n' d := (cancel_below hn d).eq_of_ne h
  have upto (n : Nat) : n ≤ n + 1 + k := by omega
  refine ⟨⟨fun ⟨n, ends⟩ => ⟨n + 1 + k, ?_⟩, fun ⟨n, ends⟩ => ⟨n + 1, ?_⟩⟩, ?_, ?_⟩
  · rw [more (Nat.le_succ n) ends] at ends
    exact mt (agree n).exhausted_iff.2 ends
  · rw [more (upto n) ends] at ends
    exact mt (agree n).exhausted_iff.1 ends
  · intro n n' ends ends'
    have bound : n ≤ max n n' + 1 := by omega
    have bound' : n' ≤ max n n' + 1 + k := by omega
    rw [more bound ends, more bound' ends']
    exact agree _
  · intro n w' ran e j below
    have agree := agree n
    rw [← more (upto n) (by rw [ran]; nofun), ran] at agree
    generalize ran' : cancelled (n + 1) root = x at agree
    cases agree with
    | value grown =>
        have fired := cancel_fires he kept ran' below
        rw [grown.rest]
        exact fired

/-- A promise of a promise is cancelled, and all three fire. -/
theorem perform_cancel_descendant_two :
    let cancelled : World Unit Unit → Outcome (World Unit Unit) Unit :=
      perform (execute (fun _ _ => .done (.ok .null)) 0) 9 (.cancel ⟨2⟩)
    ∃ w w' : World Unit Unit, w.Reached ∧ w.Descends ⟨0⟩ ⟨2⟩ 2 ∧ cancelled w = .value () w' ∧
      w'.Fired ⟨0⟩ ∧ w'.Fired ⟨1⟩ ∧ w'.Fired ⟨2⟩ := by
  intro cancelled
  obtain ⟨w, reached, facts⟩ := World.exists_reached
    (fun _ _ => .done (.ok .null)) 0
    (.ask (.newDeferred none) fun _ => .ask (.listen ⟨0⟩ none none) fun _ =>
      .ask (.listen ⟨1⟩ none none) fun _ => .ask .newKey fun _ => .done (.ok .null))
    (.initial id) ()
    (fun w => (((w.deferred ⟨1⟩).canceller, (w.deferred ⟨2⟩).canceller),
      ((w.deferred ⟨0⟩).released, (w.deferred ⟨1⟩).released), (cancelled w).value?))
    (show _ = some ((some (.parent ⟨0⟩), some (.parent ⟨1⟩)), (false, false), some ()) by
      decide +kernel)
  simp only [Prod.mk.injEq] at facts
  obtain ⟨⟨first, second⟩, ⟨alive, alive'⟩, result⟩ := facts
  obtain ⟨w', ran⟩ := Outcome.exists_value result
  have one : w.Descends ⟨0⟩ ⟨1⟩ 1 := .promise ⟨first, by simp [World.Released, alive]⟩ .root
  have two : w.Descends ⟨0⟩ ⟨2⟩ 2 := .promise ⟨second, by simp [World.Released, alive']⟩ one
  have fired := (perform_cancel_descendant 0 reached two).2.2 9 w' ran
  exact ⟨w, w', reached, two, ran, fired _ _ .root, fired _ _ one, fired _ _ two⟩

end Prototypal
