import Prototypal.Proofs.Assignment
import Prototypal.Proofs.Recorder

/-!
# The functions of accessors

A definition takes any object as the getter or the setter of an accessor, whether or not it can be
called.  Nothing else puts functions into accessors that cannot be called: what such an accessor
fails with goes back to a definition that named an object that is not a function, a stray.
-/

namespace Prototypal

variable {κ σ α : Type}

/-- The objects that a descriptor names as functions. -/
def Descriptor.functions (d : Descriptor) : List ObjectId :=
  d.getterObject?.toList ++ d.setterObject?.toList

namespace Slot

variable {s : Slot} {d : Descriptor} {f : ObjectId}

theorem functions_formed (h : f ∈ (s.formed d).functions) : f ∈ s.functions := by
  unfold formed at h
  split at h
  · cases h
  · split at h
    · cases h
    · exact h

theorem functions_updated (h : f ∈ (s.updated d).functions) :
    f ∈ s.functions ∨ f ∈ d.functions := by
  cases s with
  | data => cases h
  | accessor getter setter =>
      rcases List.mem_append.1 h with h | h
      · split at h
        · exact .inr (List.mem_append_left _ h)
        · exact .inl (List.mem_append_left _ h)
      · split at h
        · exact .inr (List.mem_append_right _ h)
        · exact .inl (List.mem_append_right _ h)

end Slot

namespace Property

variable {f : ObjectId}

theorem functions_ofDescriptor {d : Descriptor} (h : f ∈ (ofDescriptor d).slot.functions) :
    f ∈ d.functions := by
  unfold ofDescriptor at h
  dsimp only at h
  split at h
  · exact h
  · cases h

/-- A redefined property has functions that it had before or that are named. -/
theorem functions_merged {p : Property} {d : Descriptor} (h : f ∈ (p.merged d).slot.functions) :
    f ∈ p.slot.functions ∨ f ∈ d.functions :=
  (Slot.functions_updated h).imp Slot.functions_formed id

theorem functions_toDescriptor (p : Property) : p.toDescriptor.functions = p.slot.functions := by
  obtain ⟨slot, enumerable, configurable⟩ := p
  match slot with
  | .data value writable => rfl
  | .accessor getter setter => cases getter <;> cases setter <;> rfl

end Property

/-! ## What a change of an object does to its functions -/

namespace Object

variable {o object : Object κ} {f : ObjectId} {Fresh : ObjectId → Prop}

theorem holds_of_getOwn {k : Key} {p : Property} (h : o.getOwn k = some p)
    (hf : f ∈ p.slot.functions) : o.Holds f := by
  have accessor : p.isAccessor = true := by
    obtain ⟨slot, enumerable, configurable⟩ := p
    cases slot with
    | data => cases hf
    | accessor => rfl
  exact ⟨k, p, (hasEntry_of_isAccessor h accessor).2, hf⟩

theorem Holds.of_put {k : Key} {p : Property}
    (h : ({ o with table := o.table.put k p } : Object κ).Holds f) :
    f ∈ p.slot.functions ∨ o.Holds f := by
  obtain ⟨j, q, hq, held⟩ := h
  by_cases hj : j = k
  · subst hj
    cases (Table.find?_put_self ..).symm.trans hq
    exact .inl held
  · exact .inr ⟨j, q, (Table.find?_put_of_ne _ _ hj).symm.trans hq, held⟩

theorem Holds.of_erase {k : Key} (h : ({ o with table := o.table.erase k } : Object κ).Holds f) :
    o.Holds f := by
  obtain ⟨j, q, hq, held⟩ := h
  by_cases hj : j = k
  · subst hj
    cases (Table.find?_erase_self ..).symm.trans hq
  · exact ⟨j, q, (Table.find?_erase_of_ne _ hj).symm.trans hq, held⟩

/-- What was a function is one still, and accessors get fresh functions only. -/
structure Adopts (Fresh : ObjectId → Prop) (o object : Object κ) : Prop where
  callable : o.isCallable = true → object.isCallable = true
  holds {f : ObjectId} : object.Holds f → o.Holds f ∨ Fresh f

theorem Adopts.ofKind {old : Elements} (new : Elements) (ho : o.kind = .array old) :
    o.Adopts Fresh { o with kind := .array new } where
  callable h := by simp [isCallable, body?, ho] at h
  holds := .inl

theorem Adopts.define {k : Key} {d : Descriptor} (h : o.define k d = .ok object) :
    o.Adopts (· ∈ d.functions) object := by
  rcases define_cases h with ⟨old, new, ho, -, rfl⟩ | ⟨-, -, -, rfl⟩ | ⟨p, hp, -, rfl⟩
  · exact .ofKind new ho
  · refine ⟨id, fun held => ?_⟩
    rcases held.of_put with held | held
    · exact .inr (Property.functions_ofDescriptor held)
    · exact .inl held
  · refine ⟨id, fun held => ?_⟩
    rcases held.of_put with held | held
    · exact (Property.functions_merged held).imp (fun held => ⟨k, p, hp.2, held⟩) id
    · exact .inl held

theorem Adopts.delete {k : Key} (h : o.delete k = .ok object) : o.Adopts Fresh object := by
  rcases delete_cases h with ⟨old, new, ho, rfl⟩ | ⟨-, -, -, rfl⟩ | rfl
  · exact .ofKind new ho
  · exact ⟨id, fun held => .inl held.of_erase⟩
  · exact ⟨id, .inl⟩

theorem Adopts.push {v : Value} {n : Nat} (h : o.push v = .ok (n, object)) :
    o.Adopts Fresh object := by
  obtain ⟨old, new, ho, rfl⟩ := push_cases h
  exact .ofKind new ho

end Object

/-! ## What a step of the heap does to the functions of accessors -/

namespace Heap

variable {h h' : Heap κ} {o : ObjectId} {Fresh : ObjectId → Prop}

/-- What was a function is one still, and accessors get functions that others have or fresh ones. -/
structure Adopts (Fresh : ObjectId → Prop) (h h' : Heap κ) : Prop where
  callable {f : ObjectId} : (h.get f).isCallable = true → (h'.get f).isCallable = true
  holds {o f : ObjectId} : (h'.get o).Holds f → (∃ q, (h.get q).Holds f) ∨ Fresh f

theorem Adopts.set {object : Object κ} (ho : (h.get o).Adopts Fresh object) :
    h.Adopts Fresh (h.set o object) where
  callable {f} callable := by
    rcases get_set_cases h o f object with same | ⟨rfl, new⟩
    · rwa [same]
    · rw [new]
      exact ho.callable callable
  holds {q f} held := by
    rcases get_set_cases h o q object with same | ⟨rfl, new⟩
    · rw [same] at held
      exact .inl ⟨q, held⟩
    · rw [new] at held
      exact (ho.holds held).imp (fun held => ⟨q, held⟩) id

theorem Adopts.allocate {object : Object κ} (ho : ∀ {f}, object.Holds f → Fresh f) :
    h.Adopts Fresh (h.allocate object).2 where
  callable callable := by
    rwa [get_allocate_of_contains object (contains_of_isCallable callable)]
  holds {q f} held := by
    by_cases new : q = h.next
    · subst new
      rw [get_allocate_next] at held
      exact .inr (ho held)
    · rw [get_allocate_of_ne h object new] at held
      exact .inl ⟨q, held⟩

theorem Adopts.mono {Fresh' : ObjectId → Prop} (s : h.Adopts Fresh h')
    (hf : ∀ {f}, Fresh f → (∃ q, (h.get q).Holds f) ∨ Fresh' f) : h.Adopts Fresh' h' :=
  ⟨s.callable, fun held => (s.holds held).elim .inl hf⟩

/-- Accessors get functions that can be called. -/
def Behaves (h h' : Heap κ) : Prop := h.Adopts (fun f => (h.get f).isCallable = true) h'

theorem behaves_covers : Covers (Behaves (κ := κ)) where
  define hd he := (Adopts.set (.define he)).mono fun named => by
    simp [Descriptor.functions, Descriptor.getterObject?, Descriptor.setterObject?, hd.noGetter,
      hd.noSetter] at named
  delete he := .set (.delete he)
  preventExtensions := .set ⟨id, .inl⟩
  setPrototype _ := .set ⟨id, .inl⟩
  allocate _ hf := .allocate hf

theorem behaves_copies : Copies (Behaves (κ := κ)) :=
  fun {_ source _ _ p _} hp he => (Adopts.set (.define he)).mono fun named =>
    .inl ⟨source, Object.holds_of_getOwn hp (p.functions_toDescriptor ▸ named)⟩

end Heap

/-! ## Strays -/

/-- The objects that a request names as functions of an accessor though they cannot be called. -/
def Request.strays (h : Heap κ) : Request κ α → List ObjectId
  | .define _ _ d | .accessDefine _ _ d => d.functions.filter fun f => !(h.get f).isCallable
  | _ => []

/-- An operation that is asked for in a world, with the strays that it names. -/
structure Asking (κ σ : Type) where
  world : World κ σ
  strays : List ObjectId

/-- Notes the world in which each operation is asked for and the strays that it names, the latest
first. -/
def Asking.recorder : Recorder κ σ (List (Asking κ σ)) where
  asked r w askings := ⟨w, r.strays w.heap⟩ :: askings

/-- One of the operations named a stray. -/
def Asking.Strays (past : List (Asking κ σ)) (f : ObjectId) : Prop := ∃ a ∈ past, f ∈ a.strays

/-- The functions of every accessor can be called, but for strays. -/
def Heap.Vouched (h : Heap κ) (Stray : ObjectId → Prop) : Prop :=
  ∀ o f, (h.get o).Holds f → (h.get f).isCallable = true ∨ Stray f

namespace Heap.Vouched

variable {h h' : Heap κ} {Stray : ObjectId → Prop}

theorem empty : (Heap.empty : Heap κ).Vouched Stray := by
  rintro o f ⟨k, p, hp, -⟩
  rw [get_of_not_contains (by simp [contains, size, Heap.empty])] at hp
  cases (Table.find?_empty _).symm.trans hp

theorem mono {Stray' : ObjectId → Prop} (v : h.Vouched Stray) (hs : ∀ f, Stray f → Stray' f) :
    h.Vouched Stray' :=
  fun o f held => (v o f held).imp id (hs f)

theorem adopts {Fresh : ObjectId → Prop} (v : h.Vouched Stray) (s : h.Adopts Fresh h')
    (hf : ∀ f, Fresh f → (h.get f).isCallable = true ∨ Stray f) : h'.Vouched Stray := by
  intro o f held
  have known : (h.get f).isCallable = true ∨ Stray f := by
    rcases s.holds held with ⟨q, held⟩ | fresh
    · exact v q f held
    · exact hf f fresh
  exact known.imp s.callable id

end Heap.Vouched

/-- What a request asks for, but for a definition, gives accessors functions that can be called. -/
theorem Request.within_behaves {r : Request κ α} (hr : ∀ o k d, ¬ r.Defines o k d) :
    r.Within Heap.Behaves := by
  have assigned (v : Value) {o : ObjectId} {k : Key} :
      Heap.Permits (κ := κ) Heap.Behaves o k (.data v) :=
    fun {_ _} he => (Heap.Adopts.set (.define he)).mono fun named => absurd named List.not_mem_nil
  cases r with
  | push => exact fun {_ _ _} he => .set (.push he)
  | define o k d => exact (hr o k d ⟨rfl, rfl, rfl⟩).elim
  | accessDefine owner k d => exact fun o h => (hr o k (d.under k) ⟨h, rfl, rfl⟩).elim
  | set _ _ v _ | accessSet _ _ v => exact fun _ _ => @assigned v _ _
  | computedSet _ _ v => exact fun _ _ _ => @assigned v _ _
  | createClass => exact @Heap.behaves_copies κ
  | _ => trivial

/-! ## Accessors along a run -/

namespace Asking

/-- The functions of accessors can be called in a world and in all worlds in which an operation was
asked for before, but for the strays named until then. -/
structure Sound (h : Heap κ) (askings : List (Asking κ σ)) : Prop where
  now : h.Vouched (Strays askings)
  before {asking : Asking κ σ} {past : List (Asking κ σ)} :
    asking :: past <:+ askings → asking.world.heap.Vouched (Strays past)

theorem Sound.cons {h : Heap κ} {asking : Asking κ σ} {askings : List (Asking κ σ)}
    (sound : Sound h askings) (same : asking.world.heap = h) : Sound h (asking :: askings) where
  now := sound.now.mono fun _ ⟨a, ha, named⟩ => ⟨a, List.mem_cons_of_mem _ ha, named⟩
  before suffix := by
    rcases List.suffix_cons_iff.1 suffix with whole | suffix
    · cases whole
      exact same ▸ sound.now
    · exact sound.before suffix

theorem lockstep :
    FullLockstep Heap.Behaves
      (Run.Both fun w : World κ (σ × List (Asking κ σ)) => Sound w.heap w.notes) :=
  .ofHeapAndClient (P := fun h (s : σ × List (Asking κ σ)) => Sound h s.2) Heap.behaves_covers
    fun sound behaves => ⟨sound.now.adopts behaves fun _ => .inl, sound.before⟩

/-- A definition keeps to the functions that can be called and the strays that were noted. -/
theorem keeps_define {w : World κ (σ × List (Asking κ σ))} {o : ObjectId} {k : Key} {d : Descriptor}
    (sound : Sound w.heap w.notes)
    (known : ∀ f ∈ d.functions, (w.heap.get f).isCallable = true ∨ Strays w.notes f) :
    (Run.change o (·.define k d)).Ends w fun _ w' => Sound w'.heap w'.notes := by
  unfold Run.Ends
  cases defined : (w.heap.get o).define k d with
  | ok object =>
      rw [Run.change_of_ok (f := (·.define k d)) defined]
      exact ⟨sound.now.adopts (.set (.define defined)) known, sound.before⟩
  | error =>
      rw [Run.change_of_error (f := (·.define k d)) defined]
      exact sound

theorem keeps_perform {exec : Exec κ (σ × List (Asking κ σ))}
    (he : ∀ body invocation, Run.Keeps (fun w => Sound w.heap w.notes) (exec body invocation))
    (n : Nat) (r : Request κ α) :
    Run.Keeps (fun w => Sound w.heap w.notes) (recorder.perform exec n r) := by
  intro w sound
  let askings : List (Asking κ σ) := ⟨w.unnoted, r.strays w.heap⟩ :: w.notes
  have noted : Sound w.heap askings := sound.cons rfl
  have known {d : Descriptor}
      (hd : r.strays w.heap = d.functions.filter fun f => !(w.heap.get f).isCallable)
      (f : ObjectId) (hf : f ∈ d.functions) :
      (w.heap.get f).isCallable = true ∨ Strays askings f := by
    cases callable : (w.heap.get f).isCallable with
    | true => exact .inl rfl
    | false =>
        refine .inr ⟨_, List.mem_cons_self, ?_⟩
        rw [hd]
        exact List.mem_filter.2 ⟨hf, by rw [callable]; rfl⟩
  have plain (hr : ∀ o k d, ¬ r.Defines o k d) : (Prototypal.perform exec n r).Ends
      (w.withNotes askings) fun _ w' => Sound w'.heap w'.notes :=
    Run.keeps_iff_agree.2 (lockstep.perform (fun _ _ => Run.keeps_iff_agree.1 (he _ _)) n
      (Request.within_behaves hr)) _ noted
  refine .modify ?_
  cases r with
  | define o k d => exact keeps_define noted (known rfl)
  | accessDefine owner k d =>
      change (Access.define owner k d).Ends _ _
      unfold Access.define
      split
      · split
        · exact noted
        · split
          · exact keeps_define noted (known rfl)
          · exact keeps_define noted (known rfl)
      · exact noted
  | _ => exact plain fun _ _ _ => id

theorem keeps_run (client : Client κ σ) (fuel : Nat) (p : Program κ σ) :
    Run.Keeps (fun w => Sound w.heap w.notes) (recorder.run client fuel p) :=
  recorder.keeps_run (fun _ => lockstep.toPlainLockstep) (fun _ sound => sound)
    (fun he n _ r _ => keeps_perform (he ()) n r)
    (fun hr he _ =>
      recorder.keeps_enter lockstep.toQuietLockstep (fun _ _ _ _ _ => rfl) (hr ()) (he ()))
    client fuel p ()

end Asking

/-- The function of an accessor can be called, or an operation named it though it could not; access
through an accessor runs its function, or fails because it is such a stray, and then changes
nothing. -/
structure World.AccessorsRun (w : World κ σ) (past : List (Asking κ σ)) : Prop where
  stored {o : ObjectId} {k : Key} {p : Property} {f : ObjectId} :
    (w.heap.get o).getOwn k = some p → f ∈ p.slot.functions →
      (w.heap.get f).isCallable = true ∨ Asking.Strays past f
  read {o : ObjectId} {k : Key} {getter : ObjectId} {setter : Option ObjectId} :
    w.heap.findSlot o k = some (.accessor (some getter) setter) →
      ∀ (exec : Exec κ σ) (n : Nat) (receiver : Value),
        (∃ body, (w.heap.get getter).body? = some body ∧
          perform exec n (.get o k receiver) w = exec body (.call receiver []) w) ∨
        (Asking.Strays past getter ∧
          perform exec n (.get o k receiver) w = .fault .notCallable w)
  assigned {o : ObjectId} {k : Key} {getter : Option ObjectId} {setter : ObjectId} :
    w.heap.findSlot o k = some (.accessor getter (some setter)) →
      ∀ (exec : Exec κ σ) (n : Nat) (v receiver : Value),
        (∃ body, (w.heap.get setter).body? = some body ∧
          perform exec n (.set o k v receiver) w =
            (discard (exec body (.call receiver [v]))) w) ∨
        (Asking.Strays past setter ∧
          perform exec n (.set o k v receiver) w = .fault .notCallable w)

theorem call_cases {w : World κ σ} {f : ObjectId} {Stray : Prop}
    (known : (w.heap.get f).isCallable = true ∨ Stray) (exec : Exec κ σ) (this : Value)
    (arguments : List Value) :
    (∃ body, (w.heap.get f).body? = some body ∧
      call exec f this arguments w = exec body (.call this arguments) w) ∨
    (Stray ∧ call exec f this arguments w = .fault .notCallable w) := by
  rw [call, Run.viewHeap_bind]
  cases hb : (w.heap.get f).body? with
  | some body => exact .inl ⟨body, rfl, rfl⟩
  | none => exact .inr ⟨known.resolve_left (by simp [Object.isCallable, hb]), rfl⟩

theorem Heap.Vouched.accessorsRun {w : World κ σ} {past : List (Asking κ σ)}
    (v : w.heap.Vouched (Asking.Strays past)) : w.AccessorsRun past := by
  have known {o : ObjectId} {k : Key} {slot : Slot} {f : ObjectId}
      (found : w.heap.findSlot o k = some slot) (hf : f ∈ slot.functions) :
      (w.heap.get f).isCallable = true ∨ Asking.Strays past f := by
    obtain ⟨p, hp, rfl⟩ := Option.map_eq_some_iff.1 found
    rw [find_eq_findSome?] at hp
    obtain ⟨q, -, own⟩ := List.exists_of_findSome?_eq_some hp
    exact v q f (Object.holds_of_getOwn own hf)
  refine ⟨fun own hf => v _ _ (Object.holds_of_getOwn own hf), ?_, ?_⟩
  · intro o k getter setter found exec n receiver
    have read : perform exec n (.get o k receiver) w = call exec getter receiver [] w := by
      rw [perform, Member.get, Run.viewHeap_bind, found]
    rw [read]
    exact call_cases (known found (by simp [Slot.functions])) ..
  · intro o k getter setter found exec n x receiver
    have assigned : perform exec n (.set o k x receiver) w =
        (discard (call exec setter receiver [x])) w := by
      rw [perform, Member.set, Run.viewHeap_bind, found]
    rw [assigned]
    rcases call_cases (known (f := setter) found (by simp [Slot.functions])) exec receiver [x] with
      ⟨body, callable, called⟩ | ⟨stray, failed⟩
    · exact .inl ⟨body, callable, Run.discard_congr called⟩
    · exact .inr ⟨stray, Run.bind_of_fault failed⟩

/-- In every world that a run comes to, the functions of accessors can be called, and reading and
assigning run them, but for the objects that definitions named before though they could not be
called. -/
theorem Program.accessors_run (client : Client κ σ) (fuel : Nat) (p : Program κ σ)
    (source : NameSource) (s : σ) :
    (Asking.recorder.run client fuel p).Agree Recorder.Forgets (p.run client fuel) ∧
    ∀ w ∈ (Asking.recorder.run client fuel p ((World.boot source s).noted [])).world?,
      w.unnoted.AccessorsRun w.notes ∧
      ∀ asking past, asking :: past <:+ w.notes → asking.world.AccessorsRun past := by
  refine ⟨Asking.recorder.forgets_run client fuel p, fun w hw => ?_⟩
  have start : Asking.Sound (World.boot source s : World κ σ).heap ([] : List (Asking κ σ)) := by
    rw [World.heap_boot]
    exact ⟨.empty, fun suffix => by cases List.suffix_nil.1 suffix⟩
  have sound := (Asking.keeps_run client fuel p _ start).world? w hw
  exact ⟨sound.now.accessorsRun, fun _ _ suffix => (sound.before suffix).accessorsRun⟩

/-- An object that cannot be called is taken for a getter, and then reading fails. -/
example :
    let p : Program Unit Unit :=
      .ask (.newObject none) fun _ => .ask (.newObject none) fun _ =>
      .ask (.define ⟨0⟩ (.text "k") { getter := some (.object ⟨1⟩) }) fun _ =>
      .ask (.get ⟨0⟩ (.text "k") (.object ⟨0⟩)) .done
    let ended := Asking.recorder.run (fun _ _ => .done (.ok .null)) 0 p
      ((World.boot (.initial id) ()).noted [])
    ended.fault? = some .notCallable ∧
      ended.world?.map (fun w => w.notes.map (·.strays)) = some [[], [⟨1⟩], [], []] := by
  decide +kernel

end Prototypal
