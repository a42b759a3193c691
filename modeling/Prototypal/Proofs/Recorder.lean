import Prototypal.Proofs.Machine

/-!
# Notes along a run

A recorder says what is noted before an operation and what after a body, whoever asks for the
operation or enters the body.  The notes are a part of the client's state that the client does not
see, and forgetting them gives the run itself.
-/

namespace Prototypal

open Run (Agree)

variable {κ σ ν α : Type}

/-- What is noted along a run. -/
structure Recorder (κ σ ν : Type) where
  /-- The notes after an operation is asked for in a world. -/
  asked {α : Type} : Request κ α → World κ σ → ν → ν := fun _ _ notes => notes
  /-- The notes after a body that started in the first world ended with a value in the second. -/
  left : Body κ → World κ σ → Value → World κ σ → ν → ν := fun _ _ _ _ notes => notes

namespace World

/-- The world without its notes. -/
def unnoted (w : World κ (σ × ν)) : World κ σ := { w with client := w.client.1 }

/-- What was noted so far. -/
def notes (w : World κ (σ × ν)) : ν := w.client.2

/-- The world with other notes. -/
def withNotes (w : World κ (σ × ν)) (notes : ν) : World κ (σ × ν) :=
  { w with client := (w.client.1, notes) }

/-- A world with its first notes. -/
def noted (w : World κ σ) (notes : ν) : World κ (σ × ν) := { w with client := (w.client, notes) }

end World

/-- The program of a client that does not see the notes. -/
def Program.noting (p : Program κ σ) : Program κ (σ × ν) :=
  p.within Prod.fst fun s t => (s, t.2)

namespace Recorder

variable (ρ : Recorder κ σ ν)

/-! ## Runs with notes -/

/-- Carries out an operation after the notes that are taken of it. -/
def perform (exec : Exec κ (σ × ν)) (n : Nat) (r : Request κ α) : Run κ (σ × ν) α := do
  Run.modify fun w => w.withNotes (ρ.asked r w.unnoted w.notes)
  Prototypal.perform exec n r

/-- Runs a body and takes notes of how it ends. -/
def leave (body : Body κ) (x : Run κ (σ × ν) Value) : Run κ (σ × ν) Value := do
  let before ← Run.view World.unnoted
  let v ← x
  Run.modify fun w => w.withNotes (ρ.left body before v w.unnoted w.notes)
  pure v

theorem perform_eq_self {exec : Exec κ (σ × ν)} {n : Nat} {r : Request κ α}
    (h : ∀ w notes, ρ.asked r w notes = notes) :
    ρ.perform exec n r = Prototypal.perform exec n r := by
  funext w
  change Prototypal.perform exec n r (w.withNotes _) = _
  rw [h]
  rfl

theorem leave_eq_self {body : Body κ} (h : ∀ v a w notes, ρ.left body v a w notes = notes)
    (x : Run κ (σ × ν) Value) : ρ.leave body x = x := by
  unfold leave
  simp only [h]
  exact (funext fun w => by rfl : _ = x >>= pure).trans (bind_pure x)

/-- Runs a body, or the code of a client. -/
def execute (client : Client κ σ) : Nat → Exec κ (σ × ν)
  | 0 => fun _ _ => Run.exhausted
  | n + 1 => fun body invocation =>
    ρ.leave body <|
      enter
        (fun code invocation =>
          (client code invocation).noting.runWith (ρ.perform (execute client n) n))
        (execute client n) body invocation

/-- Runs a program with the given fuel and takes notes. -/
def run (client : Client κ σ) (fuel : Nat) (p : Program κ σ) : Run κ (σ × ν) Value :=
  p.noting.runWith (ρ.perform (ρ.execute client fuel) fuel)

/-! ## Forgetting the notes -/

/-- A run with notes and the run itself, up to the notes. -/
def Forgets (v : World κ (σ × ν)) (w : World κ σ) : Prop := v.unnoted = w

theorem lockstep :
    FullLockstep (Heap.Step fun _ _ _ => True)
      (Forgets : World κ (σ × ν) → World κ σ → Prop) where
  heap h := by rw [← h]; rfl
  cursors h := by rw [← h]; rfl
  names h := by rw [← h]; rfl
  deferreds h := by rw [← h]; rfl
  wellKnown h := by rw [← h]; rfl
  step h _ := by rw [← h]; rfl
  move _ h := by rw [← h]; rfl
  draw _ h := by rw [← h]; rfl
  covers := Heap.Step.covers fun _ => trivial
  settle _ h := by rw [← h]; rfl

/-- A program whose operations leave the same but for notes leaves the same but for notes. -/
theorem forgets_noting {perform : {α : Type} → Request κ α → Run κ (σ × ν) α}
    {perform' : {α : Type} → Request κ α → Run κ σ α}
    (ask : ∀ {α : Type} (r : Request κ α), Agree Forgets (perform r) (perform' r))
    (p : Program κ σ) : Agree Forgets (p.noting.runWith perform) (p.runWith perform') := by
  have within : Agree Forgets (p.noting.runWith perform)
      ((p.within id fun s _ => s).runWith perform') :=
    lockstep.runWith (fun h => by rw [← h]; rfl) (fun _ h => by rw [← h]; rfl)
      (fun {_ r} _ => ask r) p p.all_true
  rwa [p.within_self] at within

variable {exec : Exec κ (σ × ν)} {exec' : Exec κ σ}

theorem forgets_perform (he : Lockstep.ExecAgree Forgets exec exec') (n : Nat) (r : Request κ α) :
    Agree Forgets (ρ.perform exec n r) (Prototypal.perform exec' n r) := by
  have plain : Agree Forgets (Prototypal.perform exec n r) (Prototypal.perform exec' n r) :=
    lockstep.perform he n (Request.within_step (fun _ => trivial) fun _ _ _ _ => trivial)
  exact fun v w h => plain (show Forgets (v.withNotes _) w from h)

theorem forgets_leave (body : Body κ) {x : Run κ (σ × ν) Value} {y : Run κ σ Value}
    (h : Agree Forgets x y) : Agree Forgets (ρ.leave body x) y := by
  intro v w related
  rw [← bind_pure y]
  have ends : Agree Forgets
      (do
        let a ← x
        Run.modify fun w => w.withNotes (ρ.left body v.unnoted a w.unnoted w.notes)
        pure a)
      (y >>= pure) :=
    h.bind fun _ => fun _ _ related => .value related
  exact ends related

theorem forgets_execute (client : Client κ σ) (n : Nat) :
    Lockstep.ExecAgree Forgets (ρ.execute client n) (Prototypal.execute client n) := by
  induction n with
  | zero => exact fun _ _ => .exhausted
  | succ n ih =>
      exact fun body invocation => ρ.forgets_leave body
        (lockstep.enter (fun _ _ => forgets_noting (ρ.forgets_perform ih n) _) ih body invocation)

/-- Forgetting the notes gives the run. -/
theorem forgets_run (client : Client κ σ) (fuel : Nat) (p : Program κ σ) :
    Agree Forgets (ρ.run client fuel p) (p.run client fuel) :=
  forgets_noting (ρ.forgets_perform (ρ.forgets_execute client fuel) fuel) p

/-! ## What runs with notes keep -/

section
variable {P : World κ (σ × ν) → Prop} {S : Heap κ → Heap κ → Prop}

/-- What holds where a body ends, if it holds once that is noted. -/
def Leaves (body : Body κ) (before : World κ σ) (P : World κ (σ × ν) → Prop) :
    Except Fault Value → World κ (σ × ν) → Prop
  | .ok v, w => P (w.withNotes (ρ.left body before v w.unnoted w.notes))
  | .error _, w => P w

theorem keeps_leave {body : Body κ} {x : Run κ (σ × ν) Value} {w : World κ (σ × ν)}
    (h : x.Ends w (ρ.Leaves body w.unnoted P)) : (ρ.leave body x).Ends w fun _ => P :=
  .view (h.bind (fun {_ _} noted => noted) fun {_ _} kept => kept)

theorem keeps_enter (L : QuietLockstep S (Run.Both P))
    (silent : ∀ body before v after notes, ρ.left body before v after notes = notes)
    {run : κ → Invocation → Run κ (σ × ν) Value}
    (hr : ∀ code invocation, Run.Keeps P (run code invocation))
    (he : ∀ body invocation, Run.Keeps P (exec body invocation)) (body : Body κ)
    (invocation : Invocation) : Run.Keeps P (ρ.leave body (enter run exec body invocation)) := by
  rw [ρ.leave_eq_self (silent body)]
  exact Run.keeps_iff_agree.2 (L.enter (fun _ _ => Run.keeps_iff_agree.1 (hr _ _))
    (fun _ _ => Run.keeps_iff_agree.1 (he _ _)) body invocation)

end

section
variable {ι : Type} {P : ι → World κ (σ × ν) → Prop} {S : Heap κ → Heap κ → Prop}
  (L : ∀ i, PlainLockstep S (Run.Both (P i)))
  (act : ∀ {i w} (s : σ), P i w → P i { w with client := (s, w.notes) })
  (ask : ∀ {exec : Exec κ (σ × ν)},
    (∀ i body invocation, Run.Keeps (P i) (exec body invocation)) →
    ∀ (n : Nat) {α : Type} (r : Request κ α) (i : ι), Run.Keeps (P i) (ρ.perform exec n r))
include L act ask

theorem keeps_program (he : ∀ i body invocation, Run.Keeps (P i) (exec body invocation)) (n : Nat)
    (p : Program κ σ) (i : ι) : Run.Keeps (P i) (p.noting.runWith (ρ.perform exec n)) := by
  refine Run.keeps_iff_agree.2 ((L i).runWith (fun h => by rw [h.1]) ?_ ?_ p p.all_true)
  · rintro v _ s ⟨rfl, hv⟩
    exact ⟨rfl, act s hv⟩
  · exact fun {_ r} _ => Run.keeps_iff_agree.1 (ask he n r i)

variable
  (leave : ∀ {run : κ → Invocation → Run κ (σ × ν) Value} {exec : Exec κ (σ × ν)},
    (∀ i code invocation, Run.Keeps (P i) (run code invocation)) →
    (∀ i body invocation, Run.Keeps (P i) (exec body invocation)) →
    ∀ i body invocation, Run.Keeps (P i) (ρ.leave body (enter run exec body invocation)))
include leave

theorem keeps_execute (client : Client κ σ) (n : Nat) (i : ι) (body : Body κ)
    (invocation : Invocation) : Run.Keeps (P i) (ρ.execute client n body invocation) := by
  induction n generalizing i body invocation with
  | zero => exact fun _ _ => trivial
  | succ n ih =>
      exact leave (fun i _ _ => ρ.keeps_program L act ask ih n _ i) ih i body invocation

/-- What clients keep when they act, what every operation keeps with its note, and what every body
keeps with its note, is kept by the run. -/
theorem keeps_run (client : Client κ σ) (fuel : Nat) (p : Program κ σ) (i : ι) :
    Run.Keeps (P i) (ρ.run client fuel p) :=
  ρ.keeps_program L act ask (ρ.keeps_execute L act ask leave client fuel) fuel p i

end

end Recorder

end Prototypal
