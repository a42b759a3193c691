import Prototypal.Proofs.Arrays.Writes
import Prototypal.Proofs.Definition

/-!
# What arrays show of a definition

A definition that an array accepts under a name of its own shows in the property afterwards, field
by field.  Elements and the length have flags that cannot be defined, and no functions: a
definition that asks for others is accepted nevertheless, except for functions of an element, and
only its value takes effect.
-/

namespace Prototypal

variable {κ σ : Type}

/-! ## Fields that are named -/

namespace FieldRecord

variable {desc current : FieldRecord} {f : Field} {v : Value}

/-- Fields that a record names besides the attributes are those of one form. -/
theorem form?_of_named (h : ¬ (desc.isData = true ∧ desc.isAccessor = true))
    (hf : desc f = some v) :
    f.form?.all (· == if desc.isAccessor then Form.accessor else Form.data) = true := by
  cases ha : desc.isAccessor with
  | true =>
      have data : desc.isData = false := eq_false_of_ne_true fun hd => h ⟨hd, ha⟩
      cases f <;> simp_all [isData, Field.form?]
  | false => cases f <;> simp_all [isAccessor, Field.form?]

theorem created_of_named (h : ¬ (desc.isData = true ∧ desc.isAccessor = true))
    (hf : desc f = some v) : desc.created f = some v := by
  rw [created, if_pos (form?_of_named h hf), hf, Option.getD_some]

theorem converted_of_named {form : Form} (hform : ∀ form', f.form? = some form' → form' = form)
    (hf : desc f = some v) : desc.converted current form f = some v := by
  unfold converted
  split
  · rw [hf]
    rfl
  · next form' named => rw [if_pos (hform form' named), hf, Option.getD_some]

theorem overlaid_of_named (hf : desc f = some v) : desc.overlaid current f = some v := by
  rw [overlaid, hf]
  rfl

end FieldRecord

namespace Property

variable {d : Descriptor} {f : Field} {v : Value}

/-- A new property has the fields that are named. -/
theorem record_ofDescriptor_of_named (h : ¬ d.Mixes) (hf : d.record f = some v) :
    (ofDescriptor d).record f = some v := by
  rw [record_ofDescriptor]
  refine FieldRecord.created_of_named ?_ hf
  rwa [Descriptor.isData_record, Descriptor.isAccessor_record]

/-- A redefined property has the fields that are named. -/
theorem record_merged_of_named {p : Property} (h : ¬ d.Mixes) (hf : d.record f = some v) :
    (p.merged d).record f = some v := by
  have unmixed : ¬ (d.record.isData = true ∧ d.record.isAccessor = true) := by
    rwa [Descriptor.isData_record, Descriptor.isAccessor_record]
  have form := FieldRecord.form?_of_named unmixed hf
  have merged := record_merged (p := p) (d := d)
  split at merged
  · next converts =>
    rw [Bool.and_eq_true] at converts
    rw [Option.some.inj merged]
    refine FieldRecord.converted_of_named (fun form' named => ?_) hf
    rw [named, converts.2] at form
    simpa using form
  · split at merged
    · next converts =>
      rw [Bool.and_eq_true] at converts
      rw [Option.some.inj merged]
      refine FieldRecord.converted_of_named (fun form' named => ?_) hf
      have data : d.record.isAccessor = false :=
        eq_false_of_ne_true fun ha => unmixed ⟨converts.2, ha⟩
      rw [named, data] at form
      simpa using form
    · rw [Option.some.inj merged]
      exact FieldRecord.overlaid_of_named hf

/-- A property has every field that a descriptor names, with the value that is named; of the length
the zeros count as the same. -/
def Reports (p : Property) (k : Key) (d : Descriptor) : Prop :=
  ∀ f v, d.record f = some v →
    ∃ u, p.record f = some u ∧ (u = v ∨ k = .length ∧ f = .value ∧ v.strictEq u = true)

end Property

/-! ## What elements and the length can show -/

/-- A descriptor names no function, and no attribute but those of a writable value that is visible
and configurable as given. -/
structure Descriptor.Plain (d : Descriptor) (enumerable configurable : Bool) : Prop where
  data : d.isAccessor = false
  writable : d.writable ≠ some false
  enumerable : d.enumerable ≠ some !enumerable
  configurable : d.configurable ≠ some !configurable

/-- A descriptor names nothing that an array cannot show under a key. -/
def Descriptor.Suits (d : Descriptor) (k : Key) : Prop :=
  match k.index? with
  | some _ => d.Plain true true
  | none => k = .length → d.Plain false false

/-- A writable value shows all of a descriptor but other attributes and functions. -/
theorem Property.reports_iff_plain {d : Descriptor} {k : Key} {u : Value}
    {enumerable configurable : Bool}
    (value : ∀ v, d.value = some v → u = v ∨ k = .length ∧ v.strictEq u = true) :
    (⟨.data u true, enumerable, configurable⟩ : Property).Reports k d ↔
      d.Plain enumerable configurable := by
  have flag {named : Option Bool} {b : Bool} {f : Field} (hf : f ≠ .value) :
      (∀ v, named.map Value.boolean = some v → ∃ u, some (Value.boolean b) = some u ∧
        (u = v ∨ k = .length ∧ f = .value ∧ v.strictEq u = true)) ↔ named ≠ some !b := by
    cases named with
    | none => simp
    | some a => cases a <;> cases b <;> simp [hf]
  have function {named : Option Value} {f : Field} :
      (∀ v, (named.map fun v => Value.ofObject? v.object?) = some v → ∃ u, none = some u ∧
        (u = v ∨ k = .length ∧ f = .value ∧ v.strictEq u = true)) ↔ named = none := by
    cases named <;> simp
  unfold Reports
  rw [record_data]
  constructor
  · intro h
    have getter : d.getter = none := function.1 (h .get)
    have setter : d.setter = none := function.1 (h .set)
    exact
      { data := by rw [Descriptor.isAccessor, getter, setter]; rfl
        writable := (flag (by decide)).1 (h .writable)
        enumerable := (flag (by decide)).1 (h .enumerable)
        configurable := (flag (by decide)).1 (h .configurable) }
  · intro plain f
    cases f with
    | value =>
        intro v named
        rcases value v named with same | ⟨length, same⟩
        · exact ⟨u, rfl, .inl same⟩
        · exact ⟨u, rfl, .inr ⟨length, rfl, same⟩⟩
    | writable => exact (flag (by decide)).2 plain.writable
    | get => exact function.2 (Descriptor.getter_eq_none plain.data)
    | set => exact function.2 (Descriptor.setter_eq_none plain.data)
    | enumerable => exact (flag (by decide)).2 plain.enumerable
    | configurable => exact (flag (by decide)).2 plain.configurable

/-! ## Definitions on arrays -/

/-- What a definition that is accepted leaves under a key of an array with the given elements: a
property that shows what is named if an array can show it there.  An element takes the value and
nothing else, and the length takes no more than a length. -/
structure Object.Shows (object object' : Object κ) (elements : Elements) (k : Key) (d : Descriptor)
    (p : Property) : Prop where
  own : object'.getOwn k = some p
  reports : p.Reports k d ↔ d.Suits k
  element {i : Nat} : k.index? = some i →
    p = .data ((d.value <|> elements.get? i).getD .undefined)
  length : k = .length → ∃ new, object'.kind = .array new ∧ p = new.lengthProperty
  unchanged : k = .length → d.value = none → object' = object

namespace Object

variable {object object' : Object κ} {elements : Elements} {k : Key} {d : Descriptor}

theorem shows_of_index {i : Nat} (array : object.kind = .array elements)
    (hi : k.index? = some i) (h : object.define k d = .ok object') :
    object.Shows object' elements k d (.data ((d.value <|> elements.get? i).getD .undefined)) := by
  obtain ⟨rfl, bound⟩ := Key.index?_eq_some_iff.1 hi
  rw [define_index array bound] at h
  split at h
  · cases h
  · split at h
    · cases h
    · cases h
      have apart : Key.ofIndex i ≠ .length := Key.ofIndex_ne_length i
      refine
        { own := ?_
          reports := ?_
          element := fun same => by cases hi.symm.trans same; rfl
          length := fun length => absurd length apart
          unchanged := fun length => absurd length apart }
      · rw [getOwn_of_index rfl hi, Elements.get?_put_self]
        rfl
      · rw [Descriptor.Suits, hi]
        exact Property.reports_iff_plain fun v named => .inl (by rw [named]; rfl)

theorem shows_of_length (array : object.kind = .array elements)
    (h : object.define .length d = .ok object') :
    ∃ p, object.Shows object' elements .length d p := by
  have unnumbered : Key.length.index? = none := by decide
  -- Whatever the new elements are, their length is shown.
  have shows {new : Elements} (unchanged : d.value = none → new = elements)
      (value : ∀ v, d.value = some v → v.strictEq (.number (.ofNat new.length)) = true) :
      object.Shows { object with kind := .array new } elements .length d new.lengthProperty :=
    { own := by rw [getOwn_of_not_index rfl unnumbered, if_pos rfl]
      reports := by
        rw [Descriptor.Suits, unnumbered]
        exact (Property.reports_iff_plain fun v named => .inr ⟨rfl, value v named⟩).trans
          ⟨fun plain _ => plain, fun plain => plain rfl⟩
      element := fun numbered => nomatch unnumbered.symm.trans numbered
      length := fun _ => ⟨new, rfl, rfl⟩
      unchanged := fun _ absent => by rw [unchanged absent, ← array] }
  cases hv : d.value with
  | none =>
      simp only [define, place_length array, defineLength, hv] at h
      cases h
      exact ⟨_, shows (fun _ => rfl) (by simp [hv])⟩
  | some v =>
      rw [define_length array hv] at h
      split at h
      · next n measured =>
        cases h
        obtain ⟨-, x, rfl, same⟩ := Value.measures_iff.1 measured
        refine ⟨_, shows (by simp [hv]) fun u named => ?_⟩
        cases hv.symm.trans named
        exact same
      · cases h

theorem shows_of_entry (place : object.place k = .entry) (unmixed : ¬ d.Mixes)
    (unnumbered : k.index? = none) (apart : k ≠ .length) (h : object.define k d = .ok object') :
    ∃ p, object.Shows object' elements k d p := by
  have shows {p : Property} (reports : ∀ f v, d.record f = some v → p.record f = some v) :
      object.Shows { object with table := object.table.put k p } elements k d p :=
    { own := HasEntry.getOwn ⟨place, Table.find?_put_self ..⟩
      reports := by
        rw [Descriptor.Suits, unnumbered]
        exact iff_of_true (fun f v named => ⟨v, reports f v named, .inl rfl⟩)
          fun length => absurd length apart
      element := fun numbered => nomatch unnumbered.symm.trans numbered
      length := fun length => absurd length apart
      unchanged := fun length => absurd length apart }
  rcases define_cases h with ⟨-, -, -, elsewhere, -⟩ | ⟨-, -, -, rfl⟩ | ⟨p, -, -, rfl⟩
  · exact absurd place elsewhere
  · exact ⟨_, shows fun _ _ => Property.record_ofDescriptor_of_named unmixed⟩
  · exact ⟨_, shows fun _ _ => Property.record_merged_of_named unmixed⟩

end Object

/-- A definition on an array fails with an error of type and changes nothing, or leaves a property
under its key.  The property shows all that is named if no other attributes are named than those of
an element or of the length, and no functions for the length; what else is named of these two has no
effect. -/
theorem perform_define_array {w : World κ σ} {o : ObjectId} {elements : Elements} {d : Descriptor}
    (array : (w.heap.get o).kind = .array elements) (unmixed : ¬ d.Mixes) (exec : Exec κ σ)
    (n : Nat) (k : Key) :
    (perform exec n (.define o k d)).Refuses w w ∨
    ∃ w' p, perform exec n (.define o k d) w = .value () w' ∧
      (w.heap.get o).Shows (w'.heap.get o) elements k d p ∧
      w' = { w with heap := w.heap.set o (w'.heap.get o) } := by
  cases defined : (w.heap.get o).define k d with
  | error f =>
      exact .inl ⟨f, Object.kind_of_define_eq_error defined,
        Run.change_of_error (f := (·.define k d)) defined⟩
  | ok object =>
      have shown : ∃ p, (w.heap.get o).Shows object elements k d p := by
        cases hi : k.index? with
        | some i => exact ⟨_, Object.shows_of_index array hi defined⟩
        | none =>
            by_cases length : k = .length
            · subst length
              exact Object.shows_of_length array defined
            · exact Object.shows_of_entry (Object.place_eq_entry_iff.2 fun _ _ => ⟨hi, length⟩)
                unmixed hi length defined
      obtain ⟨p, shows⟩ := shown
      refine .inr ⟨_, p, Run.change_of_ok (f := (·.define k d)) defined, ?_⟩
      rw [Heap.get_set_self object (Heap.contains_of_array array)]
      exact ⟨shows, rfl⟩

/-- A getter for the length is accepted and changes nothing, so that it does not show. -/
theorem perform_define_array_getter :
    let elements : Elements := .ofList [.null]
    let w : World Unit Unit :=
      { World.boot (.initial id) () with
        heap := ⟨#[Object.make (.array elements) none,
          Object.make (.function "g" (.client ())) none]⟩ }
    let d : Descriptor := { getter := some (.object ⟨1⟩), configurable := some true }
    (w.heap.get ⟨0⟩).kind = .array elements ∧ ¬ d.Mixes ∧
      ∃ p, perform (fun _ _ => Run.exhausted) 0 (.define ⟨0⟩ .length d) w = .value () w ∧
        (w.heap.get ⟨0⟩).getOwn .length = some p ∧ ¬ p.Reports .length d := by
  intro elements w d
  have array : (w.heap.get ⟨0⟩).kind = .array elements := rfl
  have unmixed : ¬ d.Mixes := by decide
  have defined : (w.heap.get ⟨0⟩).define .length d = .ok (w.heap.get ⟨0⟩) := rfl
  rcases perform_define_array array unmixed (fun _ _ => Run.exhausted) 0 .length with
    ⟨f, -, refused⟩ | ⟨w', p, accepted, shows, whole⟩
  · have accepted := Run.change_of_ok (f := (·.define .length d)) defined
    cases accepted.symm.trans refused
  · have same := shows.unchanged rfl rfl
    have unchanged : w' = w := by rw [whole, same, Heap.set_get]
    subst unchanged
    refine ⟨array, unmixed, p, accepted, shows.own, fun reports => ?_⟩
    have plain : d.Plain false false := shows.reports.1 reports rfl
    exact plain.configurable rfl

end Prototypal
