import Prototypal.Proofs.Entry
import Prototypal.Proofs.Machine

/-!
# Fixed accessors

An accessor property that is not configurable keeps its functions, with one exception: a definition
that mixes fields of both forms, and that names of an accessor only what the property already has,
puts a data property in its place.
-/

namespace Prototypal

variable {κ σ : Type}

/-- An accessor property that is not configurable. -/
def Property.fixedAccessor (getter setter : Option ObjectId) (enumerable : Bool) : Property :=
  ⟨.accessor getter setter, enumerable, false⟩

/-- A data property that is not configurable. -/
def Property.fixedData (value : Value) (writable enumerable : Bool) : Property :=
  ⟨.data value writable, enumerable, false⟩

namespace Descriptor

/-- Whatever the descriptor names of an accessor property, a fixed accessor already has. -/
structure Repeats (d : Descriptor) (getter setter : Option ObjectId) (enumerable : Bool) :
    Prop where
  getter {v : Value} : d.getter = some v → v.object? = getter
  setter {v : Value} : d.setter = some v → v.object? = setter
  enumerable {b : Bool} : d.enumerable = some b → b = enumerable
  configurable : d.configurable ≠ some true

/-- The descriptor repeats a fixed accessor, and names fields of a data property besides. -/
def Converts (d : Descriptor) (getter setter : Option ObjectId) (enumerable : Bool) : Prop :=
  d.Repeats getter setter enumerable ∧ d.Mixes

end Descriptor

/-! ## Definitions under a fixed property -/

namespace Property

variable {d : Descriptor} {getter setter : Option ObjectId} {enumerable : Bool}

theorem repeats_function_iff {named : Option Value} {function : Option ObjectId} :
    (named.isNone || named.bind Value.object? == function) = true ↔
      ∀ v, named = some v → v.object? = function := by
  cases named <;> simp

theorem not_isData_or_isAccessor_iff :
    d.isGeneric = true ∨ d.isAccessor = true ↔ (d.isData = true → d.isAccessor = true) := by
  unfold Descriptor.isGeneric
  cases d.isData <;> cases d.isAccessor <;> simp

theorem admits_fixedAccessor_iff :
    (fixedAccessor getter setter enumerable).admits d = true ↔
      d.Repeats getter setter enumerable ∧ (d.isData = true → d.isAccessor = true) := by
  have functions : (Slot.accessor getter setter).admits d = true ↔
      (∀ v, d.getter = some v → v.object? = getter) ∧
        ∀ v, d.setter = some v → v.object? = setter := by
    simp only [Slot.admits, Bool.and_eq_true]
    exact and_congr repeats_function_iff repeats_function_iff
  have shown : d.enumerable.all (· == enumerable) = true ↔
      ∀ b, d.enumerable = some b → b = enumerable := by
    cases d.enumerable <;> simp
  -- A generic descriptor names no function, so that its functions are repeated, too.
  have generic (h : d.isGeneric = true) : (Slot.accessor getter setter).admits d = true := by
    simp only [Descriptor.isGeneric, Descriptor.isAccessor, Bool.and_eq_true, Bool.not_eq_true',
      Bool.or_eq_false_iff, Option.isSome_eq_false_iff] at h
    simp [Slot.admits, h.2.1, h.2.2]
  unfold admits fixedAccessor
  simp only [Bool.false_or, Bool.and_eq_true, Bool.or_eq_true, bne_iff_ne, shown, isAccessor,
    Slot.isAccessor, beq_iff_eq]
  constructor
  · rintro ⟨⟨configurable, enumerable⟩, form⟩
    have admitted : (Slot.accessor getter setter).admits d = true := by
      rcases form with h | ⟨-, h⟩
      · exact generic h
      · exact h
    obtain ⟨g, s⟩ := functions.1 admitted
    exact ⟨⟨g _, s _, enumerable _, configurable⟩,
      not_isData_or_isAccessor_iff.1 (form.imp id (·.1))⟩
  · rintro ⟨h, form⟩
    refine ⟨⟨h.configurable, fun _ => h.enumerable⟩, ?_⟩
    rcases not_isData_or_isAccessor_iff.2 form with hg | ha
    · exact .inl hg
    · exact .inr ⟨ha, functions.2 ⟨fun _ => h.getter, fun _ => h.setter⟩⟩

/-- A definition that a fixed property admits changes its slot at most. -/
theorem merged_of_admits {p : Property} {slot : Slot} (hp : p.configurable = false)
    (h : p.admits d = true) (hs : (p.slot.formed d).updated d = slot) :
    p.merged d = ⟨slot, p.enumerable, false⟩ := by
  simp only [admits, hp, Bool.false_or, Bool.and_eq_true, bne_iff_ne] at h
  obtain ⟨⟨configurable, enumerable⟩, -⟩ := h
  have shown : d.enumerable.getD p.enumerable = p.enumerable := by
    cases he : d.enumerable with
    | none => rfl
    | some b => simpa [he] using enumerable
  have fixed : d.configurable.getD p.configurable = false := by
    cases hc : d.configurable with
    | none => exact hp
    | some b => cases b <;> simp_all
  simp only [merged, hs, shown, fixed]

theorem merged_fixedAccessor_of_not_isData (h : d.Repeats getter setter enumerable)
    (hd : d.isData = false) :
    (fixedAccessor getter setter enumerable).merged d = fixedAccessor getter setter enumerable := by
  have getters : (if d.getter.isSome then d.getterObject? else getter) = getter := by
    unfold Descriptor.getterObject?
    cases hg : d.getter with
    | none => rfl
    | some v => exact h.getter hg
  have setters : (if d.setter.isSome then d.setterObject? else setter) = setter := by
    unfold Descriptor.setterObject?
    cases hs : d.setter with
    | none => rfl
    | some v => exact h.setter hs
  refine merged_of_admits rfl (admits_fixedAccessor_iff.2 ⟨h, by simp [hd]⟩) ?_
  simp [fixedAccessor, Slot.formed, Slot.isAccessor, hd, Slot.updated, getters, setters]

/-- A conversion keeps no function, and the value is read-only unless it is named otherwise. -/
theorem merged_fixedAccessor_of_converts (h : d.Converts getter setter enumerable) :
    (fixedAccessor getter setter enumerable).merged d =
      fixedData (d.value.getD .undefined) (d.writable.getD false) enumerable := by
  refine merged_of_admits rfl (admits_fixedAccessor_iff.2 ⟨h.1, fun _ => h.2.2⟩) ?_
  simp [fixedAccessor, Slot.formed, Slot.isAccessor, h.2.1, Slot.updated]

/-- A fixed data property stays one. -/
theorem merged_fixedData {v : Value} {writable : Bool}
    (h : (fixedData v writable enumerable).admits d = true) :
    (fixedData v writable enumerable).merged d =
      fixedData (d.value.getD v) (d.writable.getD writable) enumerable := by
  have accessor : d.isAccessor = false := by
    simp only [admits, fixedData, Bool.false_or, Bool.and_eq_true, Bool.or_eq_true, beq_iff_eq,
      isAccessor, Slot.isAccessor, Descriptor.isGeneric, Bool.not_eq_true'] at h
    exact h.2.elim (·.2) (·.1)
  refine merged_of_admits rfl h ?_
  simp [fixedData, Slot.formed, Slot.isAccessor, accessor, Slot.updated]

/-- A fixed value that cannot be written stays as it is. -/
theorem merged_fixedData_of_not_writable {d : Descriptor} {v : Value} {enumerable : Bool}
    (h : (fixedData v false enumerable).admits d = true) :
    (fixedData v false enumerable).merged d = .fixedData v false enumerable := by
  have kept : d.writable ≠ some true ∧ ∀ u, d.value = some u → u = v := by
    simp only [admits, fixedData, Bool.false_or, Bool.and_eq_true, Bool.or_eq_true] at h
    rcases h.2 with generic | ⟨-, slot⟩
    · simp only [Descriptor.isGeneric, Descriptor.isData, Bool.and_eq_true, Bool.not_eq_true',
        Bool.or_eq_false_iff, Option.isSome_eq_false_iff, Option.isNone_iff_eq_none] at generic
      simp [generic.1]
    · simpa [Slot.admits, Value.same_iff, Option.all_eq_true] using slot
  rw [merged_fixedData h]
  have value : d.value.getD v = v := by
    cases hd : d.value with
    | none => rfl
    | some u => exact kept.2 u hd
  have writable : d.writable.getD false = false := by
    cases hd : d.writable with
    | none => rfl
    | some b => exact Bool.eq_false_iff.2 fun written => kept.1 (hd.trans (congrArg some written))
  rw [value, writable]

end Property

/-! ## Fixed accessors along a run -/

section
variable {o : ObjectId} {k : Key} {getter setter : Option ObjectId} {enumerable : Bool}

/-- Every definition but the conversions of a fixed accessor. -/
def Spares (o : ObjectId) (k : Key) (getter setter : Option ObjectId) (enumerable : Bool)
    (o' : ObjectId) (k' : Key) (d : Descriptor) : Prop :=
  ¬ (o' = o ∧ k' = k ∧ d.Converts getter setter enumerable)

/-- The property was a fixed accessor, and is still one or was converted. -/
def Heap.Converted (h : Heap κ) (o : ObjectId) (k : Key) (getter setter : Option ObjectId)
    (enumerable : Bool) : Prop :=
  (h.get o).HasEntry k (.fixedAccessor getter setter enumerable) ∨
    ∃ v writable, (h.get o).HasEntry k (.fixedData v writable enumerable)

/-- A step leaves a fixed accessor alone unless it converts it. -/
theorem Heap.Step.fixedAccessor {Defines : ObjectId → Key → Descriptor → Prop} {h h' : Heap κ}
    (s : Step Defines h h')
    (hp : (h.get o).HasEntry k (.fixedAccessor getter setter enumerable)) :
    (h'.get o).HasEntry k (.fixedAccessor getter setter enumerable) ∨
      ∃ d, Defines o k d ∧ d.Converts getter setter enumerable ∧
        (h'.get o).HasEntry k
          (.fixedData (d.value.getD .undefined) (d.writable.getD false) enumerable) := by
  rcases s.hasEntry hp rfl with hp | ⟨d, hd, admitted, hp⟩
  · exact .inl hp
  · obtain ⟨repeats, form⟩ := Property.admits_fixedAccessor_iff.1 admitted
    cases hdata : d.isData with
    | false => exact .inl (Property.merged_fixedAccessor_of_not_isData repeats hdata ▸ hp)
    | true =>
        have converts : d.Converts getter setter enumerable := ⟨repeats, hdata, form hdata⟩
        exact .inr ⟨d, hd, converts, Property.merged_fixedAccessor_of_converts converts ▸ hp⟩

theorem Heap.Step.converted {Defines : ObjectId → Key → Descriptor → Prop} {h h' : Heap κ}
    (s : Step Defines h h') (hp : h.Converted o k getter setter enumerable) :
    h'.Converted o k getter setter enumerable := by
  rcases hp with hp | ⟨v, writable, hp⟩
  · rcases s.fixedAccessor hp with hp | ⟨d, -, -, hp⟩
    · exact .inl hp
    · exact .inr ⟨_, _, hp⟩
  · rcases s.hasEntry hp rfl with hp | ⟨d, -, admitted, hp⟩
    · exact .inr ⟨v, writable, hp⟩
    · exact .inr ⟨_, _, Property.merged_fixedData admitted ▸ hp⟩

theorem Heap.Step.spared {h h' : Heap κ}
    (hp : (h.get o).HasEntry k (.fixedAccessor getter setter enumerable))
    (s : Step (Spares o k getter setter enumerable) h h') :
    (h'.get o).HasEntry k (.fixedAccessor getter setter enumerable) := by
  rcases s.fixedAccessor hp with hp | ⟨d, spares, converts, -⟩
  · exact hp
  · exact absurd ⟨rfl, rfl, converts⟩ spares

/-- What a definition does under the key of a fixed accessor: a conversion turns it into a data
property, another descriptor that repeats it and names no data changes nothing, and every other one
is refused. -/
theorem perform_define_fixedAccessor {w : World κ σ}
    (hp : (w.heap.get o).HasEntry k (.fixedAccessor getter setter enumerable))
    (exec : Exec κ σ) (n : Nat) (d : Descriptor) :
    (d.Converts getter setter enumerable →
      ∃ w', perform exec n (.define o k d) w = .value () w' ∧
        (w'.heap.get o).getOwn k =
          some (.fixedData (d.value.getD .undefined) (d.writable.getD false) enumerable)) ∧
    (d.Repeats getter setter enumerable → d.isData = false →
      perform exec n (.define o k d) w = .value () w) ∧
    (¬ (d.Repeats getter setter enumerable ∧ (d.isData = true → d.isAccessor = true)) →
      perform exec n (.define o k d) w = .fault (.notRedefinable k) w) := by
  have define := Object.define_of_hasEntry hp d
  refine ⟨fun converts => ?_, fun repeats hd => ?_, fun hd => ?_⟩
  · have admitted := Property.admits_fixedAccessor_iff.2 ⟨converts.1, fun _ => converts.2.2⟩
    rw [if_pos admitted, Property.merged_fixedAccessor_of_converts converts] at define
    refine ⟨_, Run.change_of_ok (f := (·.define k d)) define, ?_⟩
    rw [Heap.get_set_self _ (Heap.contains_of_hasEntry hp)]
    exact (hp.ofTable (Table.find?_put_self ..)).getOwn
  · have admitted := Property.admits_fixedAccessor_iff.2 ⟨repeats, by simp [hd]⟩
    rw [if_pos admitted, Property.merged_fixedAccessor_of_not_isData repeats hd,
      Table.put_eq_self hp.2] at define
    refine (Run.change_of_ok (f := (·.define k d)) define).trans ?_
    rw [Heap.set_get]
  · rw [if_neg (mt Property.admits_fixedAccessor_iff.1 hd)] at define
    exact Run.change_of_error (f := (·.define k d)) define

/-- A fixed accessor is one after every run, or it was converted into a data property with the same
attributes; it is the same after a run that asks for no conversion.  Conversions are the only
definitions that change it, and a definition or deletion that would change it otherwise is refused
with an error of type. -/
theorem Program.run_fixedAccessor {w : World κ σ}
    (h : (w.heap.get o).getOwn k = some (.fixedAccessor getter setter enumerable)) :
    (∀ (client : Client κ σ) (fuel : Nat) (p : Program κ σ), ∀ w' ∈ (p.run client fuel w).world?,
      (w'.heap.get o).getOwn k = some (.fixedAccessor getter setter enumerable) ∨
        ∃ v writable, (w'.heap.get o).getOwn k = some (.fixedData v writable enumerable)) ∧
    (∀ (client : Client κ σ) (fuel : Nat) (p : Program κ σ),
      (∀ code invocation,
        (client code invocation).Defines (Spares o k getter setter enumerable)) →
      p.Defines (Spares o k getter setter enumerable) → ∀ w' ∈ (p.run client fuel w).world?,
      (w'.heap.get o).getOwn k = some (.fixedAccessor getter setter enumerable)) ∧
    (∀ (exec : Exec κ σ) (n : Nat) (d : Descriptor),
      (d.Converts getter setter enumerable →
        ∃ w', perform exec n (.define o k d) w = .value () w' ∧
          (w'.heap.get o).getOwn k =
            some (.fixedData (d.value.getD .undefined) (d.writable.getD false) enumerable)) ∧
      (d.Repeats getter setter enumerable → d.isData = false →
        perform exec n (.define o k d) w = .value () w) ∧
      (¬ (d.Repeats getter setter enumerable ∧ (d.isData = true → d.isAccessor = true)) →
        perform exec n (.define o k d) w = .fault (.notRedefinable k) w) ∧
      perform exec n (.delete o k) w = .fault (.notDeletable k) w) ∧
    (Fault.notRedefinable k).kind = .type ∧ (Fault.notDeletable k).kind = .type := by
  have hp := Object.hasEntry_of_isAccessor h rfl
  refine ⟨fun client fuel p w' hw' => ?_, fun client fuel p hc hd w' hw' => ?_,
    fun exec n d => ?_, rfl, rfl⟩
  · have step {h h' : Heap κ} (hp : h.Converted o k getter setter enumerable)
        (s : Heap.Step (fun _ _ _ => True) h h') : h'.Converted o k getter setter enumerable :=
      s.converted hp
    have converted := Program.run_keeps (fun _ => trivial) step
      (fun code invocation => (client code invocation).defines_true) fuel p.defines_true w (.inl hp)
    exact (converted.world? w' hw').imp (·.getOwn) fun ⟨v, writable, hp⟩ => ⟨v, writable, hp.getOwn⟩
  · have unmixed {o' : ObjectId} {k' : Key} {d : Descriptor} (hd : ¬ d.Mixes) :
        Spares o k getter setter enumerable o' k' d := fun ⟨_, _, converts⟩ => hd converts.2
    exact ((Program.run_keeps unmixed Heap.Step.spared hc fuel hd w hp).world? w' hw').getOwn
  · obtain ⟨converts, repeats, refused⟩ := perform_define_fixedAccessor hp exec n d
    exact ⟨converts, repeats, refused,
      Run.change_of_error (f := (·.delete k)) (Object.delete_of_hasEntry hp)⟩

/-- An object with an accessor that is not configurable takes a value and its old getter under the
same key, and then has no getter. -/
theorem Program.run_fixedAccessor_converted :
    let k := Key.text "k"
    let getter : ObjectId := ⟨1⟩
    let object : Object Unit :=
      { Object.make .ordinary none with
        table := Table.empty.put k (.fixedAccessor (some getter) none true) }
    let w : World Unit Unit := { World.boot (.initial id) () with heap := ⟨#[object]⟩ }
    let d : Descriptor := { value := some (.boolean true), getter := some (.object getter) }
    (w.heap.get ⟨0⟩).getOwn k = some (.fixedAccessor (some getter) none true) ∧
      ∃ w', perform (fun _ _ => Run.exhausted) 0 (.define ⟨0⟩ k d) w = .value () w' ∧
        (w'.heap.get ⟨0⟩).getOwn k = some (.fixedData (.boolean true) false true) := by
  intro k getter object w d
  have present : (w.heap.get ⟨0⟩).getOwn k = some (.fixedAccessor (some getter) none true) :=
    Table.find?_put_self ..
  have converts : d.Converts (some getter) none true :=
    ⟨⟨fun h => by cases h; rfl, nofun, nofun, by decide⟩, by decide⟩
  exact ⟨present, ((Program.run_fixedAccessor present).2.2.1 _ _ d).1 converts⟩

end

end Prototypal
