import Mathlib.Data.List.Nodup
import Prototypal.Proofs.Deferred.Bookkeeping
import Prototypal.Proofs.ErrorObject

/-!
# The laws of deferred results

What holds at every moment of a history, and the invariant of recorded runs that carries it.
-/

namespace Prototypal

variable {κ σ : Type}

/-! ## From an outcome to the next -/

namespace Listener

variable {l : Listener κ} {s : Settlement}

/-- The handler of a listener that an outcome is for, and the value that it gets. -/
inductive Calls (l : Listener κ) : Settlement → κ → Value → Prop where
  | callback {code : κ} (given : l.callback = some code) (v : Value) : Calls l (.value v) code v
  | errback {code : κ} (given : l.errback = some code) (v : Value) : Calls l (.error v) code v

/-- The listener has no handler for an outcome. -/
inductive Passes (l : Listener κ) : Settlement → Prop where
  | value (absent : l.callback = none) (v : Value) : Passes l (.value v)
  | error (absent : l.errback = none) (v : Value) : Passes l (.error v)

theorem calls_of_handler? {code : κ} (h : l.handler? s = some code) :
    l.Calls s code s.payload := by
  cases s with
  | value v => exact .callback h v
  | error v => exact .errback h v

theorem passes_of_handler? (h : l.handler? s = none) : l.Passes s := by
  cases s with
  | value v => exact .value h v
  | error v => exact .error h v

end Listener

/-- What a promise fires with once its listener has made a result of the outcome: the value, or a
new error object for the fault. -/
inductive Settlement.Conveys (before after : Heap κ) : Except Fault Value → Settlement → Prop where
  | value (v : Value) : Conveys before after (.ok v) (.value v)
  | error {f : Fault} {o : ObjectId} (new : before.contains o = false)
      (shows : after.ShowsError o f.surfaceName f.message) :
      Conveys before after (.error f) (.error (.object o))

namespace Moment

/-- A handler starts: the one that the outcome of `d` is for, with the value of the outcome, for a
listener that was taken just before. -/
def Starts (m : Moment κ σ) (before : History κ σ) (d : DeferredId) (l : Listener κ) (code : κ)
    (v : Value) : Prop :=
  ∃ m' rest s, before = m' :: rest ∧ m'.event = .taken d l ∧
    (m.world.deferred d).outcome = some s ∧ l.Calls s code v

/-- How a listener that was taken from `d` comes by its result. -/
inductive Results (client : Client κ σ) (m : Moment κ σ) (before : History κ σ) (d : DeferredId)
    (l : Listener κ) : Except Fault Value → Prop where
  /-- It has no handler for the outcome. -/
  | passed {s : Settlement} (outcome : (m.world.deferred d).outcome = some s)
      (passes : l.Passes s) : Results client m before d l (.ok .undefined)
  /-- Its handler started, and ends with the result. -/
  | called {s : Settlement} {code : κ} {v : Value} {m' : Moment κ σ} {n : Nat}
      {result : Except Fault Value} (outcome : (m.world.deferred d).outcome = some s)
      (calls : l.Calls s code v) (earlier : m' ∈ before) (started : m'.event = .started d l code v)
      (ran : (execute client n (.client code) (.settle l.promise v)).attempt m'.world =
        .value result m.world) : Results client m before d l result

/-- The result is that of a listener that was taken from `d`. -/
def Ends (client : Client κ σ) (m : Moment κ σ) (before : History κ σ) (d : DeferredId)
    (l : Listener κ) (result : Except Fault Value) : Prop :=
  l ∈ History.takenFrom d before ∧ m.Results client before d l result

/-- What a chained deferred fires with is what its own listener has just made of the outcome of the
one that it is chained to. -/
def Settles (m : Moment κ σ) (before : History κ σ) (c d : DeferredId) (s : Settlement) : Prop :=
  ∃ m' rest l result, before = m' :: rest ∧ m'.event = .ended d l result ∧
    l ∈ History.takenFrom d before ∧ l.promise.deferred = c ∧
    Settlement.Conveys m'.world.heap m.world.heap result s

end Moment

/-! ## The laws -/

/-- No result of a handler is lost.  At this moment, a chained deferred has fired unless the one
that it is chained to has not, or is being told; its outcome is what its own listener made of the
outcome.  That holds as long as something refers to the one that it is chained to, and afterwards
until it is cancelled itself. -/
structure Delivers (client : Client κ σ) (m : Moment κ σ) (before : History κ σ) : Prop where
  parentFired {c d : DeferredId} : m.world.Bound c d → m.world.Fired c → m.world.Fired d
  fired {c d : DeferredId} : m.world.Chained c d → m.world.Fired d →
    d ∉ History.telling (m :: before) → m.world.Fired c
  outcome {c d : DeferredId} {s : Settlement} : m.world.Bound c d →
    (m.world.deferred c).outcome = some s → ∃ m' ∈ m :: before, m'.event = .fired c s
  /-- The listener of a chained deferred. -/
  own {c d : DeferredId} : m.world.Chained c d →
    ∃ l ∈ History.registeredOn d (m :: before), l.promise.deferred = c ∧
      ∀ l' ∈ History.registeredOn d (m :: before), l'.promise.deferred = c → l' = l
  /-- It is told once. -/
  takenOnce (d : DeferredId) : (History.takenFrom d (m :: before)).Nodup
  /-- Its handler starts when it is told, and at no other time. -/
  startedOnce {d : DeferredId} {l : Listener κ} {code : κ} {v : Value} :
    m.event = .started d l code v → m.Starts before d l code v
  /-- Its result is that of its handler, or undefined if it has none. -/
  ended {d : DeferredId} {l : Listener κ} {result : Except Fault Value} :
    m.event = .ended d l result → m.Ends client before d l result
  /-- A chained deferred fires with what its own listener has just made of the outcome. -/
  delivered {c d : DeferredId} {s : Settlement} : m.event = .fired c s → m.world.Chained c d →
    m.Settles before c d s
  /-- What a listener made of an outcome is delivered at once. -/
  delivers {m' : Moment κ σ} {rest : History κ σ} {d : DeferredId} {l : Listener κ}
      {result : Except Fault Value} :
    before = m' :: rest → m'.event = .ended d l result → m.event ≠ .refused l →
    ∃ s, m.event = .fired l.promise.deferred s ∧
      Settlement.Conveys m'.world.heap m.world.heap result s
  /-- Something refers to a deferred until it is released. -/
  released {d : DeferredId} : m.world.Released d → ∃ m' ∈ m :: before, m'.event = .released d
  notCancelled {c d : DeferredId} {s : Settlement} :
    m.event = .cancelled c s → ¬ m.world.Bound c d
  notRefused {l : Listener κ} {d : DeferredId} :
    m.event = .refused l → ¬ m.world.Bound l.promise.deferred d

/-- Listeners are told once and in order.  At this moment, who was registered was taken, in the same
order, or waits, and nobody waits at a fired deferred unless it is being told. -/
structure Drains (client : Client κ σ) (m : Moment κ σ) (before : History κ σ) : Prop where
  account (d : DeferredId) : History.registeredOn d (m :: before) =
    History.takenFrom d (m :: before) ++ m.world.queue d
  once (d : DeferredId) : (History.registeredOn d (m :: before)).Nodup
  /-- The handler for the outcome starts as soon as its listener is taken. -/
  starts {m' : Moment κ σ} {rest : History κ σ} {d : DeferredId} {l : Listener κ} :
    before = m' :: rest → m'.event = .taken d l →
    ∃ s, (m.world.deferred d).outcome = some s ∧
      ((∃ code v, l.Calls s code v ∧ m.event = .started d l code v) ∨
        l.Passes s ∧ m.event = .ended d l (.ok .undefined))
  /-- No handler starts otherwise. -/
  started {d : DeferredId} {l : Listener κ} {code : κ} {v : Value} :
    m.event = .started d l code v → m.Starts before d l code v
  /-- What has started runs to its end. -/
  ended {d : DeferredId} {l : Listener κ} {result : Except Fault Value} :
    m.event = .ended d l result → m.Ends client before d l result
  told {d : DeferredId} : m.event = .told d → m.world.queue d = []
  returned {d : DeferredId} : m.event = .returned d → m.world.Fired d → m.world.queue d = []
  idle {d : DeferredId} : m.world.Fired d → d ∉ History.telling (m :: before) →
    m.world.queue d = []
  /-- An outcome stays. -/
  kept {m' : Moment κ σ} : m' ∈ before → m'.world.Later m.world

namespace Moment

/-- What an event presupposes. -/
def Lawful (client : Client κ σ) (m : Moment κ σ) (before : History κ σ) : Prop :=
  match m.event with
  | .fired c s => ∀ d, m.world.Chained c d → m.Settles before c d s
  | .cancelled c _ => ∀ d, ¬ m.world.Bound c d
  | .started d l code v => m.Starts before d l code v
  | .ended d l result => m.Ends client before d l result
  | .refused l => ∀ d, ¬ m.world.Bound l.promise.deferred d
  | .told d => m.world.queue d = []
  | .returned d => m.world.Fired d → m.world.queue d = []
  | .made _ | .registered _ _ | .taken _ _ | .released _ => True

/-- What has to follow the event before. -/
def Answers (m : Moment κ σ) : History κ σ → Prop
  | [] => True
  | m' :: _ =>
    match m'.event with
    | .taken d l => ∃ s, (m.world.deferred d).outcome = some s ∧
        ((∃ code v, l.Calls s code v ∧ m.event = .started d l code v) ∨
          l.Passes s ∧ m.event = .ended d l (.ok .undefined))
    | .ended _ l result => m.event ≠ .refused l → ∃ s, m.event = .fired l.promise.deferred s ∧
        Settlement.Conveys m'.world.heap m.world.heap result s
    | _ => True

end Moment

/-! ## The invariant -/

/-- Whoever was taken has come by a result, unless an open loop runs its handler. -/
def Finished (F : List Frame) (h : History κ σ) : Prop :=
  ∀ d, ∀ l ∈ h.takenFrom d,
    (∃ m ∈ h, ∃ result, m.event = .ended d l result) ∨ ⟨d, some l.promise.deferred⟩ ∈ F

namespace Finished

variable {F G : List Frame} {h : History κ σ} {e : Event κ} {d : DeferredId} {l : Listener κ}

theorem empty : Finished F ([] : History κ σ) := fun _ _ hl => nomatch hl

/-- An event that takes no listener. -/
theorem cons (f : Finished F h) (ht : ∀ d, e.taken? d = none) (w : World κ σ)
    (sub : ∀ {d c}, ⟨d, some c⟩ ∈ F → ⟨d, some c⟩ ∈ G) : Finished G (⟨e, w⟩ :: h) := by
  intro d l hl
  rw [History.takenFrom_cons, ht, Option.toList_none, List.append_nil] at hl
  refine (f d l hl).imp ?_ sub
  exact fun ⟨m, hm, ended⟩ => ⟨m, List.mem_cons_of_mem _ hm, ended⟩

/-- The loop that takes a listener runs its handler. -/
theorem take (f : Finished (⟨d, none⟩ :: F) h) (w : World κ σ) :
    Finished (⟨d, some l.promise.deferred⟩ :: F) (⟨.taken d l, w⟩ :: h) := by
  intro e l' hl
  rw [History.takenFrom_cons, Event.taken?] at hl
  rcases List.mem_append.1 hl with hl | hl
  · rcases f e l' hl with ⟨m, hm, ended⟩ | hm
    · exact .inl ⟨m, List.mem_cons_of_mem _ hm, ended⟩
    · rcases List.mem_cons.1 hm with same | hm
      · cases same
      · exact .inr (List.mem_cons_of_mem _ hm)
  · split at hl
    · next he =>
      rw [← he, Option.mem_toList.1 hl |> Option.some.inj]
      exact .inr (List.mem_cons_self ..)
    · cases hl

/-- A loop whose handler has ended needs to hold nothing any more. -/
theorem drop (f : Finished (⟨d, some l.promise.deferred⟩ :: F) h)
    (ended : ∃ m ∈ h, ∃ result, m.event = .ended d l result)
    (own : ∀ l' ∈ h.takenFrom d, l'.promise.deferred = l.promise.deferred → l' = l) :
    Finished (⟨d, none⟩ :: F) h := by
  intro e l' hl
  rcases f e l' hl with done | hm
  · exact .inl done
  · rcases List.mem_cons.1 hm with same | hm
    · injection same with here promise
      subst here
      rw [own l' hl (Option.some.inj promise)]
      exact .inl ended
    · exact .inr (List.mem_cons_of_mem _ hm)

end Finished

/-- The world agrees with its history, which obeys the laws, while the loops `F` are open. -/
structure Sound (client : Client κ σ) (F : List Frame) (w : World κ (σ × History κ σ)) :
    Prop where
  wired : Wired F w
  booked : Booked w
  telling : History.telling w.history = F.map (·.deferred)
  finished : Finished F w.history
  lawful {m : Moment κ σ} {before : History κ σ} :
    m :: before <:+ w.history → Delivers client m before ∧ Drains client m before

section
variable {client : Client κ σ} {F : List Frame} {w : World κ (σ × History κ σ)} {e : Event κ}
  (wired : Wired F w) (booked : Booked (w.note e))
  (telling : History.telling (⟨e, w.forget⟩ :: w.history) = F.map (·.deferred))
  (lawful : (⟨e, w.forget⟩ : Moment κ σ).Lawful client w.history)
  (answers : (⟨e, w.forget⟩ : Moment κ σ).Answers w.history)
include wired telling in
/-- Whoever waits for a fired deferred waits while it is being told. -/
theorem mem_telling_of_awaits {c d : DeferredId} (ha : w.Awaits c d) (hf : w.Fired d) :
    d ∈ History.telling (⟨e, w.forget⟩ :: w.history) := by
  rw [telling]
  rcases wired.waiting ha with ⟨l, hl, -⟩ | hm
  · exact wired.drained hf (List.ne_nil_of_mem hl)
  · exact List.mem_map_of_mem hm

include wired booked telling lawful answers

theorem Delivers.of_wired : Delivers client ⟨e, w.forget⟩ w.history where
  parentFired hb hf := wired.parentFired hb hf
  fired hc hf ht :=
    Classical.byContradiction fun hu => ht (mem_telling_of_awaits wired telling ⟨hc, hu⟩ hf)
  outcome {c d s} hb ho := by
    obtain ⟨m, hm, he | ⟨-, unbound⟩⟩ := booked.settled (World.contains_of_chained hb.1) ho
    · exact ⟨m, hm, he⟩
    · exact absurd hb (unbound d)
  own {c d} hc := by
    obtain ⟨l, hl, rfl⟩ := booked.own hc
    exact ⟨l, hl, rfl, fun l' hl' he => List.inj_on_of_nodup_map (booked.once d) hl' hl he⟩
  takenOnce d := by
    have once := (booked.once d).of_map _
    rw [booked.account] at once
    exact once.of_append_left
  startedOnce he := by
    cases he
    exact lawful
  ended he := by
    cases he
    exact lawful
  delivered he hc := by
    cases he
    exact lawful _ hc
  delivers hb he := by
    rw [hb] at answers
    simpa only [Moment.Answers, he] using answers
  released hr := booked.released hr
  notCancelled he := by
    cases he
    exact lawful _
  notRefused he := by
    cases he
    exact lawful _

theorem Drains.of_wired : Drains client ⟨e, w.forget⟩ w.history where
  account d := booked.account d
  once d := (booked.once d).of_map _
  starts hb he := by
    rw [hb] at answers
    simpa only [Moment.Answers, he] using answers
  started he := by
    cases he
    exact lawful
  ended he := by
    cases he
    exact lawful
  told he := by
    cases he
    exact lawful
  returned he := by
    cases he
    exact lawful
  idle {d} hf ht := by
    rw [telling] at ht
    exact Classical.byContradiction fun hq => ht (wired.drained hf hq)
  kept hm := (booked.later (List.mem_cons_of_mem _ hm)).trans (.of_deferreds rfl)

/-- A step that ends in an event keeps the invariant if the event is lawful. -/
theorem Sound.of_wired (finished : Finished F (⟨e, w.forget⟩ :: w.history))
    (old : ∀ {m before}, m :: before <:+ w.history →
      Delivers client m before ∧ Drains client m before) :
    Sound client F (w.note e) where
  wired := wired.congr rfl
  booked := booked
  telling := telling
  finished := finished
  lawful {m before} h := by
    rcases List.suffix_cons_iff.1 h with h | h
    · cases h
      exact ⟨.of_wired wired booked telling lawful answers,
        .of_wired wired booked telling lawful answers⟩
    · exact old h

end

/-- Whether another event has to follow at once. -/
def Event.pends : Event κ → Bool
  | .taken _ _ | .ended _ _ _ => true
  | _ => false

/-- Nothing has to follow the last event. -/
def Calm (w : World κ (σ × History κ σ)) : Prop := ∀ m ∈ w.history.head?, m.event.pends = false

theorem Calm.answers {w : World κ (σ × History κ σ)} (h : Calm w) (m : Moment κ σ) :
    m.Answers w.history := by
  unfold Calm at h
  cases hh : w.history with
  | nil => trivial
  | cons m' rest =>
      rw [hh] at h
      have calm := h m' rfl
      obtain ⟨event, world⟩ := m'
      cases event with
      | taken | ended => cases calm
      | _ => trivial

/-- A sound world to which nothing has to follow at once. -/
structure Steady (client : Client κ σ) (F : List Frame) (w : World κ (σ × History κ σ)) : Prop
    extends Sound client F w where
  calm : Calm w

/-! ## Steps -/

variable {client : Client κ σ} {F : List Frame} {w w' : World κ (σ × History κ σ)}
  {d : DeferredId}

theorem Sound.empty (hd : w.deferreds = #[]) (hh : w.history = []) : Sound client [] w where
  wired := .empty hd
  booked := .empty hd hh
  telling := by rw [hh]; rfl
  finished := by rw [hh]; exact .empty
  lawful h := by
    rw [hh] at h
    cases List.suffix_nil.1 h

/-- Nothing else of the world matters. -/
theorem Sound.congr (h : Sound client F w) (hd : w'.deferreds = w.deferreds)
    (hh : w'.history = w.history) : Sound client F w' where
  wired := h.wired.congr hd
  booked := h.booked.congr hd hh
  telling := hh ▸ h.telling
  finished := hh ▸ h.finished
  lawful hs := h.lawful (hh ▸ hs)

/-- An event that changes nothing and opens or closes no loop. -/
theorem Sound.note {e : Event κ} (h : Sound client F w) (hr : ∀ d, e.registered? d = none)
    (ht : ∀ d, e.taken? d = none)
    (telling : History.telling (⟨e, w.forget⟩ :: w.history) = History.telling w.history)
    (lawful : (⟨e, w.forget⟩ : Moment κ σ).Lawful client w.history)
    (answers : (⟨e, w.forget⟩ : Moment κ σ).Answers w.history) : Sound client F (w.note e) :=
  .of_wired h.wired (h.booked.note hr ht) (telling.trans h.telling) lawful answers
    (h.finished.cons ht _ id) h.lawful

/-- A loop takes a listener; its handler has to start. -/
theorem Sound.take (h : Steady client (⟨d, none⟩ :: F) w) {l : Listener κ}
    {rest : Queue (Listener κ)} (hp : (w.deferred d).listeners.pop? = some (l, rest)) :
    Sound client (⟨d, some l.promise.deferred⟩ :: F) ((w.requeue d rest).note (.taken d l)) :=
  .of_wired (w := w.requeue d rest) (h.wired.take hp)
    (h.booked.take (h.wired.framed (List.mem_cons_self ..)).1 hp) h.telling trivial
    (h.calm.answers _) (h.finished.take _) h.lawful

theorem calm_note {e : Event κ} (he : e.pends = false) : Calm (w.note e) := by
  intro m hm
  cases hm
  exact he

/-- The handler of the listener that was just taken starts. -/
theorem Steady.start (h : Sound client F w) {m : Moment κ σ} {before : History κ σ} {l : Listener κ}
    {code : κ} {s : Settlement} (hh : w.history = m :: before) (he : m.event = .taken d l)
    (ho : (w.deferred d).outcome = some s) (hl : l.handler? s = some code) :
    Steady client F (w.note (.started d l code s.payload)) where
  toSound := by
    have calls := Listener.calls_of_handler? hl
    refine h.note (fun _ => rfl) (fun _ => rfl) rfl ⟨m, before, s, hh, he, ho, calls⟩ ?_
    rw [hh]
    simp only [Moment.Answers, he]
    exact ⟨s, ho, .inl ⟨code, _, calls, rfl⟩⟩
  calm := calm_note rfl

/-- A deferred gets its outcome, and its listeners are told: one that is chained to no other, or
that is cancelled when nothing refers to the other any more. -/
theorem Steady.settle (h : Steady client F w) (hd : ¬ w.Fired d) {s : Settlement} {e : Event κ}
    (he : e = .fired d s ∧ (∀ e, ¬ w.Chained d e) ∨ e = .cancelled d s ∧ ∀ e, ¬ w.Bound d e) :
    Steady client (⟨d, none⟩ :: F) ((w.settle d s).note e) where
  toSound := by
    have contained := World.contains_of_not_fired hd
    have unbound : ∀ e, ¬ w.Bound d e := by
      rcases he with ⟨-, unchained⟩ | ⟨-, unbound⟩
      · exact fun e hb => unchained e hb.1
      · exact unbound
    refine .of_wired (w := w.settle d s) (h.wired.fire contained unbound s)
      (h.booked.settle hd (he.imp And.left id)) ?_ ?_ (h.calm.answers _)
      (h.finished.cons ?_ _ (List.mem_cons_of_mem _)) h.lawful
    · rcases he with ⟨rfl, -⟩ | ⟨rfl, -⟩ <;> exact congrArg _ h.telling
    · rcases he with ⟨rfl, unchained⟩ | ⟨rfl, -⟩
      · exact fun e hc => absurd ((World.chained_settle contained s).1 hc) (unchained e)
      · exact fun e hb => unbound e ((World.Later.settle hd s).bound contained hb)
    · rcases he with ⟨rfl, -⟩ | ⟨rfl, -⟩ <;> exact fun _ => rfl
  calm := by rcases he with ⟨rfl, -⟩ | ⟨rfl, -⟩ <;> exact calm_note rfl

/-- Two listeners that were taken from a deferred have different promises. -/
theorem Booked.taken_inj (h : Booked w) {l l' : Listener κ}
    (hl : l ∈ History.takenFrom d w.history) (hl' : l' ∈ History.takenFrom d w.history)
    (same : l'.promise.deferred = l.promise.deferred) : l' = l := by
  have registered {l : Listener κ} (hl : l ∈ History.takenFrom d w.history) :
      l ∈ History.registeredOn d w.history := by
    rw [h.account]
    exact List.mem_append_left _ hl
  exact List.inj_on_of_nodup_map (h.once d) (registered hl') (registered hl) same

section
variable {l : Listener κ} {m : Moment κ σ} {before : History κ σ} {result : Except Fault Value}
  (h : Sound client (⟨d, some l.promise.deferred⟩ :: F) w) (hh : w.history = m :: before)
  (he : m.event = .ended d l result) (ht : l ∈ History.takenFrom d w.history)
include h hh he ht

/-- The loop that ran the handler holds nothing any more. -/
theorem Sound.finish : Finished (⟨d, none⟩ :: F) w.history :=
  h.finished.drop ⟨m, by rw [hh]; exact List.mem_cons_self .., result, he⟩
    fun _ hl' => h.booked.taken_inj ht hl'

/-- What a handler made of the outcome settles the deferred of its promise, whose listeners are told
in turn. -/
theorem Steady.deliver {s : Settlement} (unfired : ¬ w.Fired l.promise.deferred)
    (hs : Settlement.Conveys m.world.heap w.heap result s) :
    Steady client (⟨l.promise.deferred, none⟩ :: ⟨d, none⟩ :: F)
      ((w.settle l.promise.deferred s).note (.fired l.promise.deferred s)) where
  toSound := by
    obtain ⟨⟨chained, -⟩, -⟩ := h.wired.held (List.mem_cons_self ..)
    have contained := World.contains_of_chained chained
    refine .of_wired (w := w.settle l.promise.deferred s) (h.wired.deliver s)
      (h.booked.settle unfired (.inl rfl)) (congrArg _ h.telling) (fun e hc => ?_) ?_
      ((h.finish hh he ht).cons (fun _ => rfl) _ (List.mem_cons_of_mem _)) h.lawful
    · cases chained.unique ((World.chained_settle contained s).1 hc)
      exact ⟨m, before, l, result, hh, he, ht, rfl, hs⟩
    · rw [show (w.settle _ s).history = m :: before from hh]
      simp only [Moment.Answers, he]
      exact fun _ => ⟨s, rfl, hs⟩
  calm := calm_note rfl

/-- The deferred of a promise has been cancelled meanwhile, as nothing refers any more to the one
that is being told. -/
theorem Steady.refuse (fired : w.Fired l.promise.deferred) :
    Steady client (⟨d, none⟩ :: F) (w.note (.refused l)) where
  toSound := by
    obtain ⟨⟨chained, released⟩, -⟩ := h.wired.held (List.mem_cons_self ..)
    refine .of_wired (h.wired.refuse fired) (h.booked.note (fun _ => rfl) fun _ => rfl) h.telling
      (fun e hb => ?_) ?_ ((h.finish hh he ht).cons (fun _ => rfl) _ id) h.lawful
    · cases chained.unique hb.1
      exact hb.2 (released fired)
    · rw [hh]
      simp only [Moment.Answers, he]
      exact fun other => absurd rfl other
  calm := calm_note rfl

end

/-- A loop ends. -/
theorem Steady.told (h : Steady client (⟨d, none⟩ :: F) w) (hq : w.queue d = []) :
    Steady client F (w.note (.told d)) where
  toSound := by
    refine .of_wired (h.wired.leave hq) (h.booked.note (fun _ => rfl) fun _ => rfl)
      (congrArg List.tail h.telling) hq (h.calm.answers _)
      (h.finished.cons (fun _ => rfl) _ fun hm => ?_) h.lawful
    rcases List.mem_cons.1 hm with same | hm
    · cases same
    · exact hm
  calm := calm_note rfl

/-- A client's use of a deferred ends. -/
theorem Steady.returned (h : Steady client F w) (hq : w.Fired d → w.queue d = []) :
    Steady client F (w.note (.returned d)) where
  toSound := h.note (fun _ => rfl) (fun _ => rfl) rfl hq (h.calm.answers _)
  calm := calm_note rfl

theorem Steady.made (h : Steady client F w) {canceller : Option (Canceller κ)}
    (hu : ∀ d, canceller ≠ some (.parent d)) :
    Steady client F ((w.addDeferred canceller).2.note (.made (w.addDeferred canceller).1)) where
  toSound := .of_wired (w := (w.addDeferred canceller).2) (h.wired.add hu) (h.booked.add hu)
    h.telling trivial (h.calm.answers _) (h.finished.cons (fun _ => rfl) _ id) h.lawful
  calm := calm_note rfl

/-- The last reference to a deferred goes. -/
theorem Steady.release (h : Steady client F w) (d : DeferredId) :
    Steady client F ((w.release d).note (.released d)) where
  toSound := .of_wired (w := w.release d) (h.wired.release d) (h.booked.release d) h.telling
    trivial (h.calm.answers _) (h.finished.cons (fun _ => rfl) _ id) h.lawful
  calm := calm_note rfl

theorem fired_enlist_self (hd : w.containsDeferred d = true) {l : Listener κ}
    {callback errback : Option κ} (hl : l = w.newListener callback errback) :
    (w.enlist d l).Fired d ↔ w.Fired d := by
  rw [World.fired_enlist hd hl]
  exact and_iff_right (World.ne_newListener hl hd)

/-- Handlers are registered on an unfired deferred. -/
theorem Steady.register (h : Steady client F w) (hd : ¬ w.Fired d) {l : Listener κ}
    {callback errback : Option κ} (hl : l = w.newListener callback errback) :
    Steady client F ((w.enlist d l).note (.registered d l)) where
  toSound := by
    have contained := World.contains_of_not_fired hd
    refine .of_wired (w := w.enlist d l) (h.wired.register contained (absurd · hd) hl)
      (h.booked.register contained hl) ?_ trivial (h.calm.answers _)
      (h.finished.cons (fun _ => rfl) _ id) h.lawful
    exact (if_neg (mt (fired_enlist_self contained hl).1 hd)).trans h.telling
  calm := calm_note rfl

/-- Handlers are registered on a fired deferred, which is told at once. -/
theorem Steady.registerLate (h : Steady client F w) (contained : w.containsDeferred d = true)
    (hd : w.Fired d) {l : Listener κ} {callback errback : Option κ}
    (hl : l = w.newListener callback errback) :
    Steady client (⟨d, none⟩ :: F) ((w.enlist d l).note (.registered d l)) where
  toSound := by
    refine .of_wired (w := w.enlist d l)
      ((h.wired.enter contained hd).register contained (fun _ => List.mem_cons_self ..) hl)
      (h.booked.register contained hl) ?_ trivial (h.calm.answers _)
      (h.finished.cons (fun _ => rfl) _ (List.mem_cons_of_mem _)) h.lawful
    exact (if_pos ((fired_enlist_self contained hl).2 hd)).trans (congrArg _ h.telling)
  calm := calm_note rfl

/-- Nobody waits at a deferred that fired while the same loops stayed open. -/
theorem Steady.idle (h : Steady client F w) (hd : ¬ w.Fired d) (h' : Steady client F w')
    (hf : w'.Fired d) : w'.queue d = [] :=
  h.wired.idle hd h'.wired hf

/-- What is chained to a deferred that fired while the same loops stayed open has fired, too. -/
theorem Steady.chainedFired {c : DeferredId} (h : Steady client F w) (hd : ¬ w.Fired d)
    (h' : Steady client F w') (hf : w'.Fired d) (hc : w'.Chained c d) : w'.Fired c :=
  h.wired.chainedFired hd h'.wired hf hc

theorem Steady.congr (h : Steady client F w) (hd : w'.deferreds = w.deferreds)
    (hh : w'.history = w.history) : Steady client F w' where
  toSound := h.toSound.congr hd hh
  calm := by
    unfold Calm
    rw [hh]
    exact h.calm

/-! ## Before and after a run -/

/-- What a run leaves is later than what it starts from. -/
structure Follows (w w' : World κ (σ × History κ σ)) : Prop where
  later : w.Later w'
  history : w.history <:+ w'.history

namespace Follows

theorem refl (w : World κ (σ × History κ σ)) : Follows w w := ⟨.refl w, List.suffix_rfl⟩

theorem trans {u : World κ (σ × History κ σ)} (h : Follows u w) (h' : Follows w w') :
    Follows u w' :=
  ⟨h.later.trans h'.later, h.history.trans h'.history⟩

/-- Nothing happened. -/
theorem of_eq (hd : w'.deferreds = w.deferreds) (hh : w'.history = w.history) : Follows w w' :=
  ⟨.of_deferreds hd, hh ▸ List.suffix_rfl⟩

/-- One event happened. -/
theorem note (h : w.Later w') (hh : w'.history = w.history) (e : Event κ) :
    Follows w (w'.note e) where
  later := h.trans (.of_deferreds rfl)
  history := by
    rw [World.history_note, hh]
    exact List.suffix_cons ..

end Follows

end Prototypal
