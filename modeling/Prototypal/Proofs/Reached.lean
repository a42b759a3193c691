import Prototypal.Proofs.Recorder

/-!
# Reached worlds

A watched run notes the world in which each operation is asked for, also from within a handler or a
getter.  The notes are a part of the client's state that the client does not see, and forgetting
them gives the run itself.  A world is reached if some run comes to it.
-/

namespace Prototypal

open Run (Agree)

variable {κ σ α : Type}

namespace World

/-- The world without what was seen. -/
def unwatched (w : World κ (σ × List (World κ σ))) : World κ σ := { w with client := w.client.1 }

/-- The worlds that were seen so far, the latest first. -/
def seen (w : World κ (σ × List (World κ σ))) : List (World κ σ) := w.client.2

/-- The world after a look at it. -/
def look (w : World κ (σ × List (World κ σ))) : World κ (σ × List (World κ σ)) :=
  { w with client := (w.client.1, w.unwatched :: w.seen) }

/-- A world in which nothing was seen yet. -/
def watched (w : World κ σ) : World κ (σ × List (World κ σ)) := { w with client := (w.client, []) }

end World

/-! ## Watched runs -/

/-- Carries out an operation, after a look at the world. -/
def Watched.perform (exec : Exec κ (σ × List (World κ σ))) (n : Nat) (r : Request κ α) :
    Run κ (σ × List (World κ σ)) α := do
  Run.modify World.look
  Prototypal.perform exec n r

/-- The program of a client that does not see what was noted. -/
def Program.watching (p : Program κ σ) : Program κ (σ × List (World κ σ)) :=
  p.within Prod.fst fun s t => (s, t.2)

/-- Runs a body, or the code of a client. -/
def Watched.execute (client : Client κ σ) : Nat → Exec κ (σ × List (World κ σ))
  | 0 => fun _ _ => Run.exhausted
  | n + 1 =>
    enter
      (fun code invocation =>
        (client code invocation).watching.runWith (Watched.perform (execute client n) n))
      (execute client n)

/-- Runs a program with the given fuel and notes the worlds it comes to. -/
def Program.watch (client : Client κ σ) (fuel : Nat) (p : Program κ σ) :
    Run κ (σ × List (World κ σ)) Value :=
  p.watching.runWith (Watched.perform (Watched.execute client fuel) fuel)

/-- Some client, run from the beginning, asks for an operation in this world.  What the client keeps
for itself is left open: it may, for instance, count its operations and stop at this one. -/
def World.Reached (w : World κ σ) : Prop :=
  ∃ (τ : Type) (client : Client κ τ) (fuel : Nat) (p : Program κ τ) (source : NameSource) (t : τ),
    ∃ v ∈ (p.watch client fuel (World.boot source t).watched).world?,
      ∃ u ∈ v.seen, { u with client := w.client } = w

/-- Some run begins or asks for an operation in the first world, and later asks for an operation or
ends in the second one.  What the client keeps for itself is left open. -/
def World.LeadsTo (w w' : World κ σ) : Prop :=
  ∃ (τ : Type) (client : Client κ τ) (fuel : Nat) (p : Program κ τ) (start : World κ τ),
    ∃ v ∈ (p.watch client fuel start.watched).world?,
      ∃ u u', [u', u].Sublist (v.look.seen ++ [start]) ∧
        { u with client := w.client } = w ∧ { u' with client := w'.client } = w'

/-- The world in which a program, run from the beginning, asks for its last operation. -/
def Program.stop (client : Client κ σ) (fuel : Nat) (p : Program κ σ) (source : NameSource)
    (t : σ) : Option (World κ σ) :=
  (p.watch client fuel (World.boot source t).watched).world?.bind fun v => v.seen.head?

/-- What holds where a program stops holds of a reached world. -/
theorem World.exists_reached (client : Client κ σ) (fuel : Nat) (p : Program κ σ)
    (source : NameSource) (t : σ) (f : World κ σ → α) {a : α}
    (h : (p.stop client fuel source t).map f = some a) : ∃ w : World κ σ, w.Reached ∧ f w = a := by
  obtain ⟨w, stopped, facts⟩ := Option.map_eq_some_iff.1 h
  obtain ⟨v, hv, head⟩ := Option.bind_eq_some_iff.1 stopped
  exact ⟨w, ⟨σ, client, fuel, p, source, t, v, hv, w, List.mem_of_head? head, rfl⟩, facts⟩

/-! ## Watching as recording -/

namespace Watched

/-- Notes the world in which each operation is asked for. -/
def recorder : Recorder κ σ (List (World κ σ)) where
  asked _ w seen := w :: seen

theorem execute_eq_execute (client : Client κ σ) (n : Nat) :
    execute client n = recorder.execute client n := by
  induction n with
  | zero => rfl
  | succ n ih =>
      funext body invocation
      change _ = recorder.leave body _
      rw [recorder.leave_eq_self fun _ _ _ _ => rfl, ← ih]
      rfl

/-- A watched run and the run itself, up to the notes. -/
def Forgets (v : World κ (σ × List (World κ σ))) (w : World κ σ) : Prop := v.unwatched = w

theorem forgets_execute (client : Client κ σ) (n : Nat) :
    Lockstep.ExecAgree Forgets (execute client n) (Prototypal.execute client n) := by
  rw [execute_eq_execute]
  exact recorder.forgets_execute client n

end Watched

theorem Program.watch_eq_run (client : Client κ σ) (fuel : Nat) (p : Program κ σ) :
    p.watch client fuel = Watched.recorder.run client fuel p := by
  rw [watch, Watched.execute_eq_execute]
  rfl

/-- Forgetting the notes of a watched run gives the run. -/
theorem Program.forgets_watch (client : Client κ σ) (fuel : Nat) (p : Program κ σ) :
    Agree Watched.Forgets (p.watch client fuel) (p.run client fuel) := by
  rw [watch_eq_run]
  exact Watched.recorder.forgets_run client fuel p

/-! ## What watched runs keep -/

section
variable {ι : Type} {P : ι → World κ (σ × List (World κ σ)) → Prop}
  {S : Heap κ → Heap κ → Prop} (L : ∀ i, Lockstep S (Run.Both (P i)))
  (look : ∀ {i w}, P i w → P i w.look)
  (act : ∀ {i w} (s : σ), P i w → P i { w with client := (s, w.seen) })
  (hp : ∀ {exec : Exec κ (σ × List (World κ σ))},
    (∀ i body invocation, Run.Keeps (P i) (exec body invocation)) →
    ∀ (n : Nat) {α : Type} (r : Request κ α) (i : ι),
      Run.Keeps (P i) (Prototypal.perform exec n r))
include L look act hp

theorem Watched.keeps_execute (client : Client κ σ) (n : Nat) (i : ι) (body : Body κ)
    (invocation : Invocation) : Run.Keeps (P i) (execute client n body invocation) := by
  rw [execute_eq_execute]
  exact recorder.keeps_execute (fun i => (L i).toPlainLockstep) act
    (fun he n _ r i w hw => hp he n r i w.look (look hw))
    (fun hr he i => recorder.keeps_enter (L i).toQuietLockstep (fun _ _ _ _ _ => rfl) (hr i) (he i))
    client n i body invocation

/-- What looking, acting and every operation keep, whatever the bodies are that it enters, is kept
by watched runs. -/
theorem Program.watch_keeps (client : Client κ σ) (fuel : Nat) (p : Program κ σ) (i : ι) :
    Run.Keeps (P i) (p.watch client fuel) := by
  rw [watch_eq_run]
  exact Watched.recorder.keeps_run (fun i => (L i).toPlainLockstep) act
    (fun he n _ r i w hw => hp he n r i w.look (look hw))
    (fun hr he i =>
      Watched.recorder.keeps_enter (L i).toQuietLockstep (fun _ _ _ _ _ => rfl) (hr i) (he i))
    client fuel p i

end

/-! ## The heap of the worlds that a run comes to -/

/-- What every step of the heap keeps holds in all worlds that a run comes to after one where it
holds. -/
theorem Program.watch_heap {Q : Heap κ → Prop}
    (step : ∀ {h h' : Heap κ}, Q h → Heap.Step (fun _ _ _ => True) h h' → Q h')
    (client : Client κ σ) (fuel : Nat) (p : Program κ σ) (w : World κ σ) :
    ∀ v ∈ (p.watch client fuel w.watched).world?,
      (v.look.seen ++ [w]).Pairwise fun u' u => Q u.heap → Q u'.heap := by
  let P (h : Heap κ) (s : σ × List (World κ σ)) : Prop :=
    (∀ u ∈ s.2 ++ [w], Q u.heap → Q h) ∧
      (s.2 ++ [w]).Pairwise fun u' u => Q u.heap → Q u'.heap
  have L : FullLockstep (Heap.Step fun _ _ _ => True)
      (Run.Both fun w : World κ (σ × List (World κ σ)) => P w.heap w.client) :=
    .ofHeapAndClient (Heap.Step.covers fun _ => trivial)
      fun held s => ⟨fun u hu hq => step (held.1 u hu hq) s, held.2⟩
  have look {v : World κ (σ × List (World κ σ))} (held : P v.heap v.client) :
      P v.look.heap v.look.client :=
    ⟨List.forall_mem_cons.2 ⟨id, held.1⟩, List.pairwise_cons.2 held⟩
  have keeps := Program.watch_keeps (ι := Unit) (fun _ => L.toLockstep) look (fun _ held => held)
    (fun he n _ r i => Run.keeps_iff_agree.2 <|
      L.perform (fun _ _ => Run.keeps_iff_agree.1 (he i _ _)) n
        (Request.within_step (fun _ => trivial) fun _ _ _ _ => trivial))
    client fuel p ()
  have start : P w.watched.heap w.watched.client :=
    ⟨List.forall_mem_cons.2 ⟨id, nofun⟩, List.pairwise_singleton ..⟩
  exact fun v hv => (look ((keeps w.watched start).world? v hv)).2

/-- What every step of the heap keeps holds of the heap of every reached world. -/
theorem World.Reached.heap {w : World κ σ} (hw : w.Reached) {Q : Heap κ → Prop} (empty : Q .empty)
    (step : ∀ {h h' : Heap κ}, Q h → Heap.Step (fun _ _ _ => True) h h' → Q h') : Q w.heap := by
  obtain ⟨τ, client, fuel, p, source, t, v, hv, u, hu, same⟩ := hw
  have start : Q (World.boot source t : World κ τ).heap := by
    rwa [World.heap_boot]
  have later := List.pairwise_append.1 (Program.watch_heap step client fuel p _ v hv)
  have heap : u.heap = w.heap := congrArg World.heap same
  exact heap ▸ later.2.2 u (List.mem_cons_of_mem _ hu) _ List.mem_cons_self start

/-- What every step of the heap keeps still holds in the worlds that a world leads to. -/
theorem World.LeadsTo.heap {w w' : World κ σ} (h : w.LeadsTo w') {Q : Heap κ → Prop}
    (hw : Q w.heap) (step : ∀ {h h' : Heap κ}, Q h → Heap.Step (fun _ _ _ => True) h h' → Q h') :
    Q w'.heap := by
  obtain ⟨τ, client, fuel, p, start, v, hv, u, u', order, first, second⟩ := h
  have heap : u.heap = w.heap := congrArg World.heap first
  have heap' : u'.heap = w'.heap := congrArg World.heap second
  have kept := (Program.watch_heap step client fuel p start v hv).sublist order
  exact heap' ▸ List.rel_of_pairwise_cons kept List.mem_cons_self (heap ▸ hw)

end Prototypal
