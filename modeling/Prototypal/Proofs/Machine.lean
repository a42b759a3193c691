import Prototypal.Machine
import Prototypal.Proofs.Library

/-!
# Programs in lockstep

A request takes the same steps in related worlds, and so does a whole program, whose client may keep
its state as a part of a larger one.
-/

namespace Prototypal

open Run (Agree)

variable {κ ρ σ τ α : Type}

/-! ## Requests and programs -/

/-- A request asks for the definition of a property by a descriptor. -/
def Request.Defines : Request κ α → ObjectId → Key → Descriptor → Prop
  | .define o k d, o', k', d' => o' = o ∧ k' = k ∧ d' = d
  | .accessDefine owner k d, o', k', d' => owner = .object o' ∧ k' = k ∧ d' = d.under k
  | _, _, _, _ => False

/-- What the request itself asks to append, to define, to assign or to copy is among the steps. -/
def Request.Within (S : Heap κ → Heap κ → Prop) : Request κ α → Prop
  | .push o v =>
    ∀ {h : Heap κ} {n object}, (h.get o).push v = .ok (n, object) → S h (h.set o object)
  | .define o k d => Heap.Permits S o k d
  | .set _ k v receiver => ∀ o, receiver = .object o → Heap.Permits S o k (.data v)
  | .accessDefine owner k d => ∀ o, owner = .object o → Heap.Permits S o k (d.under k)
  | .accessSet owner k v => ∀ o, owner = .object o → Heap.Permits S o k (.data v)
  | .computedSet owner _ v => ∀ o, owner = .object o → ∀ k, Heap.Permits S o k (.data v)
  | .createClass _ _ _ => Heap.Copies S
  | _ => True

/-- A request for certain definitions keeps to the steps with such definitions. -/
theorem Request.within_step {Defines : ObjectId → Key → Descriptor → Prop}
    (hu : ∀ {o k d}, ¬ d.Mixes → Defines o k d) {r : Request κ α}
    (hr : ∀ o k d, r.Defines o k d → Defines o k d) : r.Within (Heap.Step Defines) := by
  have assigned (v : Value) : ¬ (Descriptor.data v).Mixes := Descriptor.not_mixes rfl rfl
  cases r with
  | push => exact fun {_ _ _} => .push
  | define => exact fun {_ _} => .define (hr _ _ _ ⟨rfl, rfl, rfl⟩)
  | accessDefine => exact fun o h => .define (hr _ _ _ ⟨h, rfl, rfl⟩)
  | set | accessSet => exact fun _ _ => .define (hu (assigned _))
  | computedSet => exact fun _ _ _ => .define (hu (assigned _))
  | createClass => exact fun {_ _ _ _ _ _} => Heap.Step.copies hu
  | _ => trivial

/-- Every request keeps to steps that include all definitions and whatever is appended. -/
theorem Request.within_of_permits {S : Heap κ → Heap κ → Prop}
    (define : ∀ o k d, Heap.Permits S o k d)
    (push : ∀ {h : Heap κ} {o v n object}, (h.get o).push v = .ok (n, object) →
      S h (h.set o object)) (r : Request κ α) : r.Within S := by
  cases r with
  | push => exact fun {_ _ _} => push
  | define => exact define _ _ _
  | set | accessSet | accessDefine => exact fun _ _ => define _ _ _
  | computedSet => exact fun _ _ _ => define _ _ _
  | createClass => exact fun {_ _ _ _ _ _} _ => define _ _ _
  | _ => trivial

/-- A request concerns deferred results. -/
def Request.concernsDeferreds : Request κ α → Bool
  | .newDeferred _ | .fire _ _ | .listen _ _ _ | .cancel _ | .release _ => true
  | _ => false

/-- A request makes storage keys. -/
def Request.makesKeys : Request κ α → Bool
  | .newKey | .newName _ => true
  | _ => false

namespace Program

/-- Every definition that the program can ask for, whatever it learns on its way, is of a kind. -/
def Defines (P : ObjectId → Key → Descriptor → Prop) : Program κ σ → Prop
  | .done _ => True
  | .act _ next => ∀ a, (next a).Defines P
  | .look _ next => ∀ a, (next a).Defines P
  | .ask request next =>
    (∀ o k d, request.Defines o k d → P o k d) ∧ ∀ answer, (next answer).Defines P

theorem defines_true (p : Program κ σ) : p.Defines fun _ _ _ => True := by
  induction p with
  | done => trivial
  | act _ _ ih => exact ih
  | look _ _ ih => exact ih
  | ask _ _ ih => exact ⟨fun _ _ _ _ => trivial, ih⟩

/-- Every request that the program can make, whatever it learns on its way, is of a kind. -/
def All (Q : {β : Type} → Request κ β → Prop) : Program κ σ → Prop
  | .done _ => True
  | .act _ next => ∀ a, (next a).All Q
  | .look _ next => ∀ a, (next a).All Q
  | .ask request next => Q request ∧ ∀ answer, (next answer).All Q

theorem all_true (p : Program κ σ) : p.All fun _ => True := by
  induction p with
  | done => trivial
  | act _ _ ih => exact ih
  | look _ _ ih => exact ih
  | ask _ _ ih => exact ⟨trivial, ih⟩

theorem All.mono {Q Q' : {β : Type} → Request κ β → Prop}
    (hQ : ∀ {β : Type} {r : Request κ β}, Q r → Q' r) {p : Program κ σ} (hp : p.All Q) :
    p.All Q' := by
  induction p with
  | done => trivial
  | act _ _ ih => exact fun a => ih a (hp a)
  | look _ _ ih => exact fun a => ih a (hp a)
  | ask _ _ ih => exact ⟨hQ hp.1, fun answer => ih answer (hp.2 answer)⟩

theorem Defines.all {P : ObjectId → Key → Descriptor → Prop} {p : Program κ σ}
    (hp : p.Defines P) : p.All fun r => ∀ o k d, r.Defines o k d → P o k d := by
  induction p with
  | done => trivial
  | act _ _ ih => exact fun a => ih a (hp a)
  | look _ _ ih => exact fun a => ih a (hp a)
  | ask _ _ ih => exact ⟨hp.1, fun answer => ih answer (hp.2 answer)⟩

/-- The program of a client that keeps its state as a part of a larger one. -/
def within (get : τ → σ) (set : σ → τ → τ) : Program κ σ → Program κ τ
  | .done result => .done result
  | .act action next =>
    .act (fun t => let (a, s) := action (get t); (a, set s t)) fun a => (next a).within get set
  | .look question next => .look question fun a => (next a).within get set
  | .ask request next => .ask request fun answer => (next answer).within get set

theorem within_self (p : Program κ σ) : p.within id (fun s _ => s) = p := by
  induction p with
  | done => rfl
  | act _ _ ih => simp only [within, ih, id]
  | look _ _ ih => simp only [within, ih]
  | ask _ _ ih => simp only [within, ih]

end Program

/-! ## Requests in lockstep -/

variable {S : Heap κ → Heap κ → Prop} {Q : {β : Type} → Request κ β → Prop}
  {R : World κ σ → World κ τ → Prop} {exec : Exec κ σ} {exec' : Exec κ τ}

theorem PlainLockstep.perform (L : PlainLockstep S R) (he : Lockstep.ExecAgree R exec exec')
    (n : Nat) {r : Request κ α} (hr : r.concernsDeferreds = false) (hk : r.makesKeys = false)
    (hw : r.Within S) : Agree R (Prototypal.perform exec n r) (Prototypal.perform exec' n r) := by
  cases r with
  | newObject => exact L.ordinary _
  | newFunction => exact L.make (.make .client _)
  | newConstructor => exact L.constructor ..
  | newArray => exact L.array ..
  | reify f => exact L.reify f
  | push o v => exact L.changeGet (f := (·.push v)) hw
  | setPrototype => exact L.setPrototype ..
  | preventExtensions o =>
      refine L.change (f := fun object => .ok { object with extensible := false }) fun h => ?_
      cases h
      exact L.includes.preventExtensions
  | get => exact L.get he ..
  | set => exact L.set he _ _ _ _ hw
  | define o k d => exact L.change (f := (·.define k d)) hw
  | delete => exact L.deleteOwn
  | call => exact L.call he ..
  | construct => exact L.construct he ..
  | accessGet => exact L.accessGet he ..
  | accessSet => exact L.accessSet he _ _ _ hw
  | accessDelete => exact L.accessDelete ..
  | accessDefine => exact L.accessDefine hw
  | computedGet => exact L.computedGet he ..
  | computedSet => exact L.computedSet he _ _ _ hw
  | computedDelete => exact L.computedDelete he ..
  | createClass => exact L.createClass he hw ..
  | superCall => exact L.superCall he ..
  | superGet => exact L.superGet he ..
  | superSet => exact L.superSet he ..
  | markMethods => exact L.markMethods ..
  | iterator => exact L.iterator he ..
  | markGenerator => exact L.markGenerator _
  | installIterator => exact L.install _
  | forEach _ visitor => exact L.forEach he _ _ fun v => (he ..).discard
  | spread => exact L.arguments he _
  | spreadConstruct => exact L.spreadConstruct he ..
  | newKey | newName => cases hk
  | setRandomized => exact L.setRandomized _
  | newRealm => exact L.createRealm _
  | realmArray => exact L.array ..
  | realmSpreadArray => exact L.realmSpreadArray he ..
  | newDeferred | fire | listen | cancel | release => cases hr

/-- Keys are made in lockstep. -/
theorem Lockstep.makeKeys (L : Lockstep S R) (exec : Exec κ σ) (exec' : Exec κ τ) (n : Nat)
    {r : Request κ α} (hk : r.makesKeys = true) :
    Agree R (Prototypal.perform exec n r) (Prototypal.perform exec' n r) := by
  cases r with
  | newKey => exact L.drawName NameSource.nextKey
  | newName display => exact L.drawName (·.nextName display)
  | _ => cases hk

theorem Lockstep.perform (L : Lockstep S R) (he : ExecAgree R exec exec') (n : Nat)
    {r : Request κ α} (hr : r.concernsDeferreds = false) (hw : r.Within S) :
    Agree R (Prototypal.perform exec n r) (Prototypal.perform exec' n r) := by
  by_cases hk : r.makesKeys = true
  · exact L.makeKeys exec exec' n hk
  · exact L.toPlainLockstep.perform he n hr (Bool.eq_false_iff.2 hk) hw

namespace PlainLockstep

variable (L : PlainLockstep S R)
include L

theorem answer {v : World κ σ} {w : World κ τ} (h : R v w) (q : Query α) :
    q.answer v = q.answer w := by
  have deferred := World.deferred_congr (L.deferreds h)
  have diagnostic (d : DeferredId) : v.deferredDiagnostic d = w.deferredDiagnostic d := by
    unfold World.deferredDiagnostic
    rw [L.heap h, deferred]
  cases q with
  | wellKnown => exact L.wellKnown h
  | isRandomized => exact congrArg (·.randomized) (L.names h)
  | isFired d => exact congrArg (·.isFired) (deferred d)
  | deferredDiagnostic d => exact diagnostic d
  | promiseDiagnostic p =>
      change v.promiseDiagnostic p = w.promiseDiagnostic p
      unfold World.promiseDiagnostic
      rw [diagnostic]
  | _ => simp only [Query.answer, L.heap h]

/-- A program takes the same steps in related worlds if the requests that it can make do, and if the
relation leaves the client its state. -/
theorem runWith {get : σ → ρ} {set : ρ → σ → σ} {get' : τ → ρ} {set' : ρ → τ → τ}
    {perform : {α : Type} → Request κ α → Run κ σ α}
    {perform' : {α : Type} → Request κ α → Run κ τ α}
    (hget : ∀ {v w}, R v w → get v.client = get' w.client)
    (hset : ∀ {v w} (s : ρ), R v w →
      R { v with client := set s v.client } { w with client := set' s w.client })
    (hp : ∀ {α : Type} {r : Request κ α}, Q r → Agree R (perform r) (perform' r))
    (p : Program κ ρ) (hd : p.All Q) :
    Agree R ((p.within get set).runWith perform) ((p.within get' set').runWith perform') := by
  induction p with
  | done result => exact .ofExcept result
  | act action next ih =>
      intro v w h
      simp only [Program.within, Program.runWith, hget h]
      exact ih _ (hd _) (hset _ h)
  | look question next ih =>
      intro v w h
      simp only [Program.within, Program.runWith, L.answer h]
      exact ih _ (hd _) h
  | ask request next ih =>
      intro v w h
      have hr := hp hd.1 h
      simp only [Program.within, Program.runWith]
      generalize perform request v = a at hr ⊢
      generalize perform' request w = b at hr ⊢
      cases hr with
      | value h => exact ih _ (hd.2 _) h
      | fault h => exact ih _ (hd.2 _) h
      | exhausted => exact .exhausted

end PlainLockstep

theorem QuietLockstep.enter (L : QuietLockstep S R) {run : κ → Invocation → Run κ σ Value}
    {run' : κ → Invocation → Run κ τ Value}
    (hr : ∀ code invocation, Agree R (run code invocation) (run' code invocation))
    (he : Lockstep.ExecAgree R exec exec') :
    Lockstep.ExecAgree R (Prototypal.enter run exec) (Prototypal.enter run' exec') := by
  intro body invocation
  unfold Prototypal.enter
  split
  · exact hr ..
  · exact L.makeIterator _
  · exact .pure _
  · exact L.current he ..
  · exact L.moveNext he ..

/-! ## Deferred results in lockstep -/

/-- A lockstep that deferred results may be settled in, as long as no key is made, and no iterator
is made or moved. -/
structure SettlingLockstep (S : Heap κ → Heap κ → Prop) (R : World κ σ → World κ τ → Prop) : Prop
    extends PlainLockstep S R where
  settle {v w} (ds : Array (Deferred κ)) :
    R v w → R { v with deferreds := ds } { w with deferreds := ds }

/-- A lockstep that deferred results may be settled in. -/
structure FullLockstep (S : Heap κ → Heap κ → Prop) (R : World κ σ → World κ τ → Prop) : Prop
    extends Lockstep S R, SettlingLockstep S R

namespace SettlingLockstep

variable (L : SettlingLockstep S R)
include L

theorem viewDeferred (d : DeferredId) :
    Agree R (Run.view (·.deferred d)) (Run.view (·.deferred d)) :=
  .view fun h => World.deferred_congr (L.deferreds h) d

theorem setDeferred (d : DeferredId) (x : Deferred κ) :
    Agree R (Run.modify (·.setDeferred d x)) (Run.modify (·.setDeferred d x)) := by
  refine .modify fun {v w} h => ?_
  rw [World.setDeferred, World.setDeferred, L.deferreds h]
  exact L.settle _ h

theorem addDeferred (canceller : Option (Canceller κ)) :
    Agree R (Run.modifyGet (·.addDeferred canceller))
      (Run.modifyGet (·.addDeferred canceller)) := by
  refine .modifyGet fun {v w} h => ?_
  rw [World.addDeferred, World.addDeferred, L.deferreds h]
  exact ⟨rfl, L.settle _ h⟩

theorem settlementOf (result : Except Fault Value) :
    Agree R (Deferred.settlementOf result) (Deferred.settlementOf result) := by
  cases result with
  | ok v => exact .pure _
  | error f => exact (L.reify f).map _

theorem fireWith {notify : DeferredId → Run κ σ Unit} {notify' : DeferredId → Run κ τ Unit}
    (hn : ∀ d, Agree R (notify d) (notify' d)) (d : DeferredId) (s : Settlement) :
    Agree R (Deferred.fireWith notify d s) (Deferred.fireWith notify' d s) := by
  refine (L.viewDeferred d).bind fun deferred => ?_
  split
  · exact .fail _
  · exact (L.setDeferred ..).bind fun _ => hn d

variable (he : Lockstep.ExecAgree R exec exec')
include he

omit L in
theorem handle (l : Listener κ) (s : Settlement) :
    Agree R (Deferred.handle exec l s) (Deferred.handle exec' l s) := by
  unfold Deferred.handle
  split
  · exact he ..
  · exact .pure _

theorem notify (n : Nat) (d : DeferredId) :
    Agree R (Deferred.notify exec n d) (Deferred.notify exec' n d) := by
  induction n generalizing d with
  | zero => exact .exhausted
  | succ n ih =>
      refine (L.viewDeferred d).bind fun deferred => ?_
      split
      · refine (L.setDeferred ..).bind fun _ => (handle he ..).attempt.bind fun result => ?_
        refine (L.settlementOf result).bind fun s => ?_
        exact (L.fireWith ih ..).attempt.discard.bind fun _ => ih d
      · exact .pure _

theorem fire (n : Nat) (d : DeferredId) (s : Settlement) :
    Agree R (Deferred.fire exec n d s) (Deferred.fire exec' n d s) := by
  refine (L.viewDeferred d).bind fun deferred => ?_
  split
  · exact .pure _
  · exact L.fireWith (L.notify he n) d s

theorem listen (n : Nat) (d : DeferredId) (callback errback : Option κ) :
    Agree R (Deferred.listen exec n d callback errback)
      (Deferred.listen exec' n d callback errback) := by
  have contains : Agree R (Run.view (·.containsDeferred d)) (Run.view (·.containsDeferred d)) :=
    .view fun h => by rw [World.containsDeferred, World.containsDeferred, L.deferreds h]
  refine contains.bind fun contained => ?_
  split
  · refine (L.addDeferred _).bind fun promise => (L.viewDeferred d).bind fun deferred => ?_
    refine (L.setDeferred ..).bind fun _ => ?_
    split
    · exact (L.notify he n d).bind fun _ => .pure _
    · exact .pure _
  · exact (L.addDeferred _).map _

theorem runCanceller {cancel : DeferredId → Run κ σ Unit} {cancel' : DeferredId → Run κ τ Unit}
    (hc : ∀ d, Agree R (cancel d) (cancel' d)) (d : DeferredId)
    (canceller : Option (Canceller κ)) :
    Agree R (Deferred.runCanceller exec cancel d canceller)
      (Deferred.runCanceller exec' cancel' d canceller) := by
  match canceller with
  | none => exact .pure _
  | some (.client code) => exact he ..
  | some (.parent p) =>
      refine (L.viewDeferred p).bind fun deferred => ?_
      split
      · exact .pure _
      · exact (hc p).bind fun _ => .pure _

omit he in
theorem release (d : DeferredId) : Agree R (Deferred.release d) (Deferred.release d) :=
  (L.viewDeferred d).bind fun _ => L.setDeferred ..

omit he in
theorem reasonOf (result : Value) :
    Agree R (Deferred.reasonOf result) (Deferred.reasonOf result) := by
  unfold Deferred.reasonOf
  split
  · exact L.reify _
  · exact .pure _

theorem cancel (n : Nat) (d : DeferredId) :
    Agree R (Deferred.cancel exec n d) (Deferred.cancel exec' n d) := by
  induction n generalizing d with
  | zero => exact .exhausted
  | succ n ih =>
      refine (L.viewDeferred d).bind fun deferred => ?_
      split
      · exact .fail _
      · refine (L.runCanceller he ih ..).bind fun result => ?_
        refine (L.reasonOf result).bind fun reason => ?_
        refine (L.viewDeferred d).bind fun deferred => ?_
        split
        · exact .pure _
        · exact (L.setDeferred ..).bind fun _ => L.notify he n d

theorem perform (n : Nat) {r : Request κ α} (hk : r.makesKeys = false) (hw : r.Within S) :
    Agree R (Prototypal.perform exec n r) (Prototypal.perform exec' n r) := by
  by_cases hr : r.concernsDeferreds = false
  · exact L.toPlainLockstep.perform he n hr hk hw
  · cases r with
    | newDeferred canceller => exact L.addDeferred _
    | fire => exact L.fire he ..
    | listen => exact L.listen he ..
    | cancel => exact L.cancel he ..
    | release => exact L.release ..
    | _ => exact absurd rfl hr

end SettlingLockstep

theorem FullLockstep.perform (L : FullLockstep S R) (he : Lockstep.ExecAgree R exec exec') (n : Nat)
    {r : Request κ α} (hw : r.Within S) :
    Agree R (Prototypal.perform exec n r) (Prototypal.perform exec' n r) := by
  by_cases hk : r.makesKeys = true
  · exact L.makeKeys exec exec' n hk
  · exact L.toSettlingLockstep.perform he n (Bool.eq_false_iff.2 hk) hw

/-! ## Whole runs -/

section
variable {R : World κ σ → World κ σ → Prop} (L : FullLockstep S R)
  (client_eq : ∀ {v w}, R v w → v.client = w.client)
  (act : ∀ {v w} (s : σ), R v w → R { v with client := s } { w with client := s })
include L client_eq act

theorem FullLockstep.program {exec : Exec κ σ} (he : Lockstep.ExecAgree R exec exec) (n : Nat)
    {p : Program κ σ} (hp : p.All (·.Within S)) :
    Agree R (p.runWith (Prototypal.perform exec n)) (p.runWith (Prototypal.perform exec n)) := by
  rw [← p.within_self]
  exact L.runWith client_eq act (L.perform he n) p hp

variable {client : Client κ σ} (hc : ∀ code invocation, (client code invocation).All (·.Within S))
include hc

theorem FullLockstep.execute (n : Nat) :
    Lockstep.ExecAgree R (Prototypal.execute client n) (Prototypal.execute client n) := by
  induction n with
  | zero => exact fun _ _ => .exhausted
  | succ n ih => exact L.enter (fun _ _ => L.program client_eq act ih n (hc ..)) ih

theorem FullLockstep.run (fuel : Nat) {p : Program κ σ} (hp : p.All (·.Within S)) :
    Agree R (p.run client fuel) (p.run client fuel) :=
  L.program client_eq act (L.execute client_eq act hc fuel) fuel hp

end

/-- Equal worlds are in lockstep together with a property of the heap and the client's state that
every step keeps. -/
theorem FullLockstep.ofHeapAndClient {P : Heap κ → σ → Prop} (hS : Heap.Covers S)
    (hP : ∀ {h h' : Heap κ} {s : σ}, P h s → S h h' → P h' s) :
    FullLockstep S (Run.Both fun w : World κ σ => P w.heap w.client) where
  heap h := by rw [h.1]
  cursors h := by rw [h.1]
  names h := by rw [h.1]
  deferreds h := by rw [h.1]
  wellKnown h := by rw [h.1]
  step := by
    rintro v _ h ⟨rfl, hv⟩ s
    exact ⟨rfl, hP hv s⟩
  move _ h := ⟨by rw [h.1], h.2⟩
  draw _ h := ⟨by rw [h.1], h.2⟩
  covers := hS
  settle _ h := ⟨by rw [h.1], h.2⟩

theorem FullLockstep.ofHeap {P : Heap κ → Prop} (hS : Heap.Covers S)
    (hP : ∀ {h h' : Heap κ}, P h → S h h' → P h') :
    FullLockstep S (Run.Both fun w : World κ σ => P w.heap) :=
  .ofHeapAndClient (P := fun h _ => P h) hS hP

section
variable {P : Heap κ → Prop}
  (hP : ∀ {h h' : Heap κ}, P h → Heap.Step (fun _ _ _ => True) h h' → P h')
  (client : Client κ σ)
include hP

/-- What every step of the heap keeps is kept whatever is entered. -/
theorem execute_keeps (m : Nat) (body : Body κ) (invocation : Invocation) :
    Run.Keeps (P ·.heap) (Prototypal.execute client m body invocation) := by
  have L : FullLockstep (Heap.Step fun _ _ _ => True) (Run.Both fun w : World κ σ => P w.heap) :=
    .ofHeap (Heap.Step.covers fun _ => trivial) hP
  have within {β : Type} (r : Request κ β) : r.Within (Heap.Step fun _ _ _ => True) :=
    Request.within_step (fun _ => trivial) fun _ _ _ _ => trivial
  refine Run.keeps_iff_agree.2 (L.execute (fun h => by rw [h.1]) (fun _ h => ⟨by rw [h.1], h.2⟩)
    (fun code invocation => ?_) m body invocation)
  exact (Program.all_true (client code invocation)).mono fun _ => within _

/-- What every step of the heap keeps is kept by every operation. -/
theorem perform_keeps (m n : Nat) (r : Request κ α) :
    Run.Keeps (P ·.heap) (Prototypal.perform (Prototypal.execute client m) n r) := by
  have L : FullLockstep (Heap.Step fun _ _ _ => True) (Run.Both fun w : World κ σ => P w.heap) :=
    .ofHeap (Heap.Step.covers fun _ => trivial) hP
  refine Run.keeps_iff_agree.2 (L.perform (fun body invocation => ?_) n
    (Request.within_step (fun _ => trivial) fun _ _ _ _ => trivial))
  exact Run.keeps_iff_agree.1 (execute_keeps hP client m body invocation)

end

/-- What every step of the heap keeps is kept by every run of a program that asks, like its client,
for such steps only. -/
theorem Program.run_keeps_of_within {P : Heap κ → Prop} (hS : Heap.Covers S)
    (hP : ∀ {h h' : Heap κ}, P h → S h h' → P h') {client : Client κ σ}
    (hc : ∀ code invocation, (client code invocation).All (·.Within S)) (fuel : Nat)
    {p : Program κ σ} (hp : p.All (·.Within S)) : Run.Keeps (P ·.heap) (p.run client fuel) :=
  Run.keeps_iff_agree.2 <| (FullLockstep.ofHeap hS hP).run (fun h => by rw [h.1])
    (fun _ h => ⟨by rw [h.1], h.2⟩) hc fuel hp

/-- What every step of the heap keeps is kept by every run of a program, whatever its client
does. -/
theorem Program.run_keeps {Defines : ObjectId → Key → Descriptor → Prop} {P : Heap κ → Prop}
    (hu : ∀ {o k d}, ¬ d.Mixes → Defines o k d)
    (hP : ∀ {h h' : Heap κ}, P h → Heap.Step Defines h h' → P h') {client : Client κ σ}
    (hc : ∀ code invocation, (client code invocation).Defines Defines) (fuel : Nat)
    {p : Program κ σ} (hp : p.Defines Defines) : Run.Keeps (P ·.heap) (p.run client fuel) :=
  Program.run_keeps_of_within (Heap.Step.covers hu) hP
    (fun code invocation => (hc code invocation).all.mono (Request.within_step hu)) fuel
    (hp.all.mono (Request.within_step hu))

end Prototypal
