import Prototypal.Machine
import Prototypal.Proofs.Entry

/-!
# Definition by the standard algorithm

The standard algorithm for definitions, ValidateAndApplyPropertyDescriptor, works on records: some
of six fields, each with a value.  It is written here step by step, apart from properties and
descriptors, and a definition under any key of an object that is not an array follows it.  The
standard knows no record that mixes fields of both forms; here such a record goes the same way
through the steps.
-/

namespace Prototypal

variable {κ σ : Type}

/-! ## The algorithm -/

/-- A field of a property or of its description. -/
inductive Field where
  | value
  | writable
  | get
  | set
  | enumerable
  | configurable
deriving DecidableEq, Repr

/-- What a property is: a value, or functions. -/
inductive Form where
  | data
  | accessor
deriving DecidableEq, Repr

namespace Field

/-- Every field. -/
def all : List Field := [.value, .writable, .get, .set, .enumerable, .configurable]

/-- The form that has the field, unless both do. -/
def form? : Field → Option Form
  | .value | .writable => some .data
  | .get | .set => some .accessor
  | .enumerable | .configurable => none

/-- What a field of a new property is that nobody named. -/
def default : Field → Value
  | .value | .get | .set => .undefined
  | .writable | .enumerable | .configurable => .boolean false

end Field

/-- Some of the fields, with their values. -/
def FieldRecord := Field → Option Value

namespace FieldRecord

variable (desc current : FieldRecord)

/-- Whether no field is named. -/
def isEmpty : Bool := Field.all.all fun f => (desc f).isNone

def isData : Bool := (desc .value).isSome || (desc .writable).isSome

def isAccessor : Bool := (desc .get).isSome || (desc .set).isSome

def isGeneric : Bool := !desc.isData && !desc.isAccessor

/-- A new property: the fields of its form are those named, or have their defaults. -/
def created : FieldRecord := fun f =>
  if f.form?.all (· == if desc.isAccessor then Form.accessor else Form.data) then
    some ((desc f).getD f.default)
  else none

/-- A property of the other form: of the old one, only the attributes common to both stay. -/
def converted (form : Form) : FieldRecord := fun f =>
  match f.form? with
  | none => desc f <|> current f
  | some form' => if form' = form then some ((desc f).getD f.default) else none

/-- A property with the named fields replaced. -/
def overlaid : FieldRecord := fun f => desc f <|> current f

/-- Whether a field is named with another value than the current one. -/
def changes (f : Field) : Bool :=
  match desc f, current f with
  | some v, some c => !v.same c
  | some _, none => true
  | none, _ => false

/-- Whether a property that is not configurable may be described so. -/
def permitted : Bool :=
  if desc .configurable = some (.boolean true) then false
  else if desc.changes current .enumerable then false
  else if !desc.isGeneric && desc.isAccessor != current.isAccessor then false
  else if current.isAccessor then !desc.changes current .get && !desc.changes current .set
  else if current .writable = some (.boolean false) then
    desc .writable != some (.boolean true) && !desc.changes current .value
  else true

end FieldRecord

/-- The algorithm: the property after a definition, or none if the definition is refused. -/
def validateAndApply (extensible : Bool) (desc : FieldRecord) :
    Option FieldRecord → Option FieldRecord
  | none => if extensible then some desc.created else none
  | some current =>
    if desc.isEmpty then some current
    else if current .configurable = some (.boolean false) ∧ desc.permitted current = false then
      none
    else if current.isData && desc.isAccessor then some (desc.converted current .accessor)
    else if current.isAccessor && desc.isData then some (desc.converted current .data)
    else some (desc.overlaid current)

/-! ## Descriptors and properties as records -/

/-- The fields that a descriptor names.  A function that is no object counts as `undefined`. -/
def Descriptor.record (d : Descriptor) : FieldRecord
  | .value => d.value
  | .writable => d.writable.map .boolean
  | .get => d.getter.map fun v => .ofObject? v.object?
  | .set => d.setter.map fun v => .ofObject? v.object?
  | .enumerable => d.enumerable.map .boolean
  | .configurable => d.configurable.map .boolean

/-- The fields of a property, all of its form. -/
def Property.record (p : Property) : FieldRecord := p.toDescriptor.record

theorem Value.ofObject?_inj {a b : Option ObjectId} : Value.ofObject? a = .ofObject? b ↔ a = b := by
  cases a <;> cases b <;> simp [ofObject?]

@[simp]
theorem Value.object?_ofObject? (a : Option ObjectId) : (Value.ofObject? a).object? = a := by
  cases a <;> rfl

namespace Property

variable {v : Value} {writable enumerable configurable : Bool} {getter setter : Option ObjectId}

theorem record_data :
    (⟨.data v writable, enumerable, configurable⟩ : Property).record = fun
      | .value => some v
      | .writable => some (.boolean writable)
      | .get | .set => none
      | .enumerable => some (.boolean enumerable)
      | .configurable => some (.boolean configurable) := by
  funext f
  cases f <;> rfl

theorem record_accessor :
    (⟨.accessor getter setter, enumerable, configurable⟩ : Property).record = fun
      | .value | .writable => none
      | .get => some (.ofObject? getter)
      | .set => some (.ofObject? setter)
      | .enumerable => some (.boolean enumerable)
      | .configurable => some (.boolean configurable) := by
  funext f
  cases f <;> simp [record, toDescriptor, Descriptor.record]

end Property

namespace Descriptor

variable {d : Descriptor}

theorem isData_record : d.record.isData = d.isData := by
  simp [FieldRecord.isData, record, isData]

theorem isAccessor_record : d.record.isAccessor = d.isAccessor := by
  simp [FieldRecord.isAccessor, record, isAccessor]

theorem isGeneric_record : d.record.isGeneric = d.isGeneric := by
  simp [FieldRecord.isGeneric, isGeneric, isData_record, isAccessor_record]

theorem ofObject?_getterObject? :
    Value.ofObject? d.getterObject? = (d.record .get).getD .undefined := by
  unfold getterObject? record
  cases d.getter <;> rfl

theorem ofObject?_setterObject? :
    Value.ofObject? d.setterObject? = (d.record .set).getD .undefined := by
  unfold setterObject? record
  cases d.setter <;> rfl

theorem value_eq_none (h : d.isData = false) : d.value = none := by
  simp [isData] at h
  exact h.1

theorem writable_eq_none (h : d.isData = false) : d.writable = none := by
  simp [isData] at h
  exact h.2

theorem getter_eq_none (h : d.isAccessor = false) : d.getter = none := by
  simp [isAccessor] at h
  exact h.1

theorem setter_eq_none (h : d.isAccessor = false) : d.setter = none := by
  simp [isAccessor] at h
  exact h.2

end Descriptor

/-! ## Acceptance and result agree -/

namespace Property

variable {d : Descriptor} {p : Property}

theorem record_ofDescriptor : (ofDescriptor d).record = d.record.created := by
  unfold FieldRecord.created
  rw [Descriptor.isAccessor_record]
  cases ha : d.isAccessor with
  | true =>
      rw [ofDescriptor, ha, if_pos rfl, record_accessor]
      funext f
      cases f <;> simp [Field.form?, Field.default, Descriptor.ofObject?_getterObject?,
        Descriptor.ofObject?_setterObject?, Descriptor.record, Option.getD_map]
  | false =>
      rw [ofDescriptor, ha, if_neg Bool.false_ne_true, record_data]
      funext f
      cases f <;> simp [Field.form?, Field.default, Descriptor.record, Option.getD_map]

theorem changes_of_some {desc current : FieldRecord} {f : Field} {v : Value}
    (h : current f = some v) : desc.changes current f = !(desc f).all (·.same v) := by
  unfold FieldRecord.changes
  rw [h]
  cases desc f <;> rfl

theorem all_same_boolean (named : Option Bool) (b : Bool) :
    (named.map .boolean).all (Value.same · (.boolean b)) = named.all (· == b) := by
  cases named with
  | none => rfl
  | some a => cases a <;> cases b <;> rfl

/-- Sameness of functions is identity, with `undefined` for none. -/
theorem all_same_function (named : Option Value) (function : Option ObjectId) :
    (named.map fun v => .ofObject? v.object?).all (Value.same · (.ofObject? function)) =
      (named.isNone || named.bind Value.object? == function) := by
  cases named with
  | none => rfl
  | some v =>
      rw [Bool.eq_iff_iff]
      simp [Value.same_iff, Value.ofObject?_inj]

/-- A generic descriptor names none of the fields of a slot. -/
theorem admits_of_isGeneric {slot : Slot} (h : d.isGeneric = true) : slot.admits d = true := by
  simp only [Descriptor.isGeneric, Bool.and_eq_true, Bool.not_eq_true'] at h
  obtain ⟨hd, ha⟩ := h
  unfold Slot.admits
  split
  · rfl
  · simp [Descriptor.value_eq_none hd, Descriptor.writable_eq_none hd]
  · simp [Descriptor.getter_eq_none ha, Descriptor.setter_eq_none ha]

/-- The last step of the validation is about the fields of the slot. -/
theorem permitted_slot :
    (if p.record.isAccessor then !d.record.changes p.record .get && !d.record.changes p.record .set
      else if p.record .writable = some (.boolean false) then
        d.record .writable != some (.boolean true) && !d.record.changes p.record .value
      else true) = p.slot.admits d := by
  obtain ⟨slot, e, c⟩ := p
  match slot with
  | .data v true =>
      rw [record_data]
      rfl
  | .data v false =>
      have value : d.record.changes (⟨.data v false, e, c⟩ : Property).record .value =
          !d.value.all (·.same v) := changes_of_some rfl
      have writable : (d.record .writable != some (.boolean true)) = (d.writable != some true) := by
        rw [Bool.eq_iff_iff]
        simp [Descriptor.record]
      rw [value, Bool.not_not, writable]
      rfl
  | .accessor g s =>
      have getter : d.record.changes (⟨.accessor g s, e, c⟩ : Property).record .get =
          !(d.getter.isNone || d.getterObject? == g) := by
        rw [changes_of_some (v := .ofObject? g) (by rw [record_accessor]),
          Descriptor.getterObject?, ← all_same_function]
        rfl
      have setter : d.record.changes (⟨.accessor g s, e, c⟩ : Property).record .set =
          !(d.setter.isNone || d.setterObject? == s) := by
        rw [changes_of_some (v := .ofObject? s) (by rw [record_accessor]),
          Descriptor.setterObject?, ← all_same_function]
        rfl
      rw [getter, setter, Bool.not_not, Bool.not_not]
      rfl

theorem ofObject?_named (named : Option Value) (function : Option ObjectId) :
    Value.ofObject? (if named.isSome then named.bind Value.object? else function) =
      (named.map fun v => Value.ofObject? v.object?).getD (.ofObject? function) := by
  cases named <;> rfl

theorem admits_eq_permitted (hp : p.configurable = false) :
    p.admits d = d.record.permitted p.record := by
  have configurable : d.record .configurable = some (.boolean true) ↔
      d.configurable = some true := by
    simp [Descriptor.record]
  have shown : d.record.changes p.record .enumerable =
      !d.enumerable.all (· == p.enumerable) := by
    have current : p.record .enumerable = some (.boolean p.enumerable) := by
      obtain ⟨slot, e, c⟩ := p
      cases slot <;> rfl
    rw [changes_of_some current, ← all_same_boolean]
    rfl
  have form : p.record.isAccessor = p.isAccessor := by
    obtain ⟨slot, e, c⟩ := p
    cases slot <;> rfl
  unfold FieldRecord.permitted admits
  rw [permitted_slot, Descriptor.isGeneric_record, Descriptor.isAccessor_record, form, shown, hp]
  simp only [configurable]
  rw [Bool.eq_iff_iff]
  cases hg : d.isGeneric with
  | true => simp [admits_of_isGeneric hg]
  | false => simp [and_assoc]

/-- Reading the merged slot back: functions replace a value, a value replaces functions, and
otherwise the named fields replace the current ones. -/
theorem record_merged :
    some (p.merged d).record =
      if p.record.isData && d.record.isAccessor then some (d.record.converted p.record .accessor)
      else if p.record.isAccessor && d.record.isData then some (d.record.converted p.record .data)
      else some (d.record.overlaid p.record) := by
  obtain ⟨slot, e, c⟩ := p
  rw [Descriptor.isData_record, Descriptor.isAccessor_record]
  unfold merged
  cases slot with
  | data v b =>
      cases ha : d.isAccessor with
      | true =>
          have slot : ((Slot.data v b).formed d).updated d =
              .accessor d.getterObject? d.setterObject? := by
            unfold Descriptor.getterObject? Descriptor.setterObject?
            cases hg : d.getter <;> cases hs : d.setter <;>
              simp [Slot.formed, Slot.isAccessor, ha, Slot.updated, hg, hs,
                Descriptor.getterObject?, Descriptor.setterObject?]
          rw [slot, record_data, record_accessor]
          refine congrArg some (funext fun f => ?_)
          cases f <;> simp [FieldRecord.converted, Field.form?, Field.default, Descriptor.record,
            Descriptor.ofObject?_getterObject?, Descriptor.ofObject?_setterObject?]
      | false =>
          have slot : ((Slot.data v b).formed d).updated d =
              .data (d.value.getD v) (d.writable.getD b) := by
            simp [Slot.formed, Slot.isAccessor, ha, Slot.updated]
          rw [slot, record_data, record_data]
          refine congrArg some (funext fun f => ?_)
          cases f <;> simp [FieldRecord.overlaid, Descriptor.record,
            Descriptor.getter_eq_none ha, Descriptor.setter_eq_none ha]
  | accessor g s =>
      cases hdata : d.isData with
      | true =>
          have slot : ((Slot.accessor g s).formed d).updated d =
              .data (d.value.getD .undefined) (d.writable.getD false) := by
            simp [Slot.formed, Slot.isAccessor, hdata, Slot.updated]
          rw [slot, record_accessor, record_data]
          refine congrArg some (funext fun f => ?_)
          cases f <;> simp [FieldRecord.converted, Field.form?, Field.default, Descriptor.record]
      | false =>
          have slot : ((Slot.accessor g s).formed d).updated d =
              .accessor (if d.getter.isSome then d.getterObject? else g)
                (if d.setter.isSome then d.setterObject? else s) := by
            simp [Slot.formed, Slot.isAccessor, hdata, Slot.updated]
          rw [slot, record_accessor, record_accessor]
          refine congrArg some (funext fun f => ?_)
          cases f <;> simp [FieldRecord.overlaid, Descriptor.record,
            Descriptor.value_eq_none hdata, Descriptor.writable_eq_none hdata,
            Descriptor.getterObject?, Descriptor.setterObject?, ofObject?_named]

theorem eq_empty_of_isEmpty (h : d.record.isEmpty = true) : d = {} := by
  obtain ⟨v, b, g, s, e, c⟩ := d
  simp only [FieldRecord.isEmpty, Field.all, List.all_cons, List.all_nil, Bool.and_true,
    Bool.and_eq_true, Descriptor.record, Option.isNone_map, Option.isNone_iff_eq_none] at h
  obtain ⟨rfl, rfl, rfl, rfl, rfl, rfl⟩ := h
  rfl

theorem admits_empty : p.admits {} = true := by
  simp [admits, Descriptor.isGeneric, Descriptor.isData, Descriptor.isAccessor]

theorem merged_empty : p.merged {} = p := by
  obtain ⟨slot, e, c⟩ := p
  cases slot <;> rfl

theorem record_configurable :
    p.record .configurable = some (.boolean false) ↔ p.configurable = false := by
  obtain ⟨slot, e, c⟩ := p
  cases slot
  · simp [record_data]
  · simp [record_accessor]

/-- The algorithm on the record of a property, whatever descriptor it is given. -/
theorem validateAndApply_record (extensible : Bool) :
    validateAndApply extensible d.record (some p.record) =
      if p.admits d then some (p.merged d).record else none := by
  unfold validateAndApply
  simp only [record_configurable]
  split
  · next h =>
    rw [eq_empty_of_isEmpty h, admits_empty, merged_empty, if_pos rfl]
  · split
    · next h => rw [admits_eq_permitted h.1, h.2, if_neg Bool.false_ne_true]
    · next h =>
      have admits : p.admits d = true := by
        cases hc : p.configurable with
        | true => simp [admits, hc]
        | false =>
            rw [admits_eq_permitted hc]
            exact eq_true_of_ne_false fun refused => h ⟨hc, refused⟩
      rw [admits, if_pos rfl, record_merged]

end Property

/-! ## Definitions of an object -/

namespace Object

variable {object : Object κ}

/-- The object of a definition that the algorithm accepts has the property of the algorithm under
the key. -/
theorem define_eq_validateAndApply (h : object.elements? = none) (k : Key) (d : Descriptor) :
    match validateAndApply object.extensible d.record ((object.getOwn k).map Property.record) with
    | none => ∃ f, f.kind = .type ∧ object.define k d = .error f
    | some r => ∃ p, p.record = r ∧
        object.define k d = .ok { object with table := object.table.put k p } := by
  have place := place_of_not_array h k
  rw [getOwn_of_not_array h]
  unfold define
  rw [place]
  cases hk : object.table.find? k with
  | none =>
      simp only [Option.map_none, validateAndApply, defineEntry, hk]
      cases object.extensible with
      | true => exact ⟨.ofDescriptor d, Property.record_ofDescriptor, rfl⟩
      | false => exact ⟨.notExtensible k, rfl, rfl⟩
  | some p =>
      simp only [Option.map_some, Property.validateAndApply_record, defineEntry, hk]
      cases p.admits d with
      | true => exact ⟨p.merged d, rfl, rfl⟩
      | false => exact ⟨.notRedefinable k, rfl, rfl⟩

end Object

/-- What a definition under a key leaves: the property has the given record, in its old place or at
the end, and nothing else is changed. -/
structure Defined (w w' : World κ σ) (o : ObjectId) (k : Key) (r : FieldRecord) : Prop where
  own : ∃ p, (w'.heap.get o).getOwn k = some p ∧ p.record = r
  keys : (w'.heap.get o).ownKeys =
    if ((w.heap.get o).getOwn k).isSome then (w.heap.get o).ownKeys
    else (w.heap.get o).ownKeys ++ [k]
  others {j : Key} : j ≠ k → (w'.heap.get o).getOwn j = (w.heap.get o).getOwn j
  kind : (w'.heap.get o).kind = (w.heap.get o).kind
  prototype : (w'.heap.get o).prototype = (w.heap.get o).prototype
  extensible : (w'.heap.get o).extensible = (w.heap.get o).extensible
  objects {q : ObjectId} : q ≠ o → w'.heap.get q = w.heap.get q
  size : w'.heap.size = w.heap.size
  world : w' = { w with heap := w'.heap }

/-- Storing a property in the table of an object is a definition. -/
theorem Defined.put {w : World κ σ} {o : ObjectId} {k : Key} (ho : w.heap.contains o = true)
    (h : (w.heap.get o).elements? = none) (p : Property) :
    Defined w
      { w with heap := w.heap.set o { w.heap.get o with table := (w.heap.get o).table.put k p } }
      o k p.record := by
  have own := Heap.get_set_self { w.heap.get o with table := (w.heap.get o).table.put k p } ho
  have kept : { w.heap.get o with table := (w.heap.get o).table.put k p }.elements? = none := h
  exact {
    own := ⟨p, by
      simp only [own, Object.getOwn_of_not_array kept]
      exact Table.find?_put_self .., rfl⟩
    keys := by
      simp only [own, Object.getOwn_of_not_array h, Object.ownKeys_of_not_array h,
        Object.ownKeys_of_not_array kept]
      split
      · exact Table.keys_put_of_present p ‹_›
      · exact Table.keys_put_of_absent p (by simp_all)
    others := fun {j} hj => by
      simp only [own, Object.getOwn_of_not_array h, Object.getOwn_of_not_array kept]
      exact Table.find?_put_of_ne _ _ hj
    kind := by simp only [own]
    prototype := by simp only [own]
    extensible := by simp only [own]
    objects := Heap.get_set_of_ne _ _
    size := Heap.size_set ..
    world := rfl }

/-- The algorithm refuses every definition where there is no object. -/
theorem contains_of_validateAndApply {h : Heap κ} {o : ObjectId} {k : Key} {desc r : FieldRecord}
    (hr : validateAndApply (h.get o).extensible desc (((h.get o).getOwn k).map Property.record) =
      some r) : h.contains o = true := by
  cases hc : h.contains o with
  | true => rfl
  | false =>
      have absent : (Object.inert : Object κ).getOwn k = none := Table.find?_empty k
      rw [Heap.get_of_not_contains hc, absent] at hr
      cases hr

/-- A definition under any key of an object that is not an array is the algorithm: it is accepted
if and only if the algorithm accepts it, and leaves the property of the algorithm and nothing else;
a refused definition is an error of type and changes nothing. -/
theorem perform_define_eq_validateAndApply (exec : Exec κ σ) (n : Nat) (w : World κ σ)
    (o : ObjectId) (k : Key) (d : Descriptor) (h : (w.heap.get o).elements? = none) :
    match validateAndApply (w.heap.get o).extensible d.record
      (((w.heap.get o).getOwn k).map Property.record) with
    | none => ∃ f, f.kind = .type ∧ perform exec n (.define o k d) w = .fault f w
    | some r => ∃ w', perform exec n (.define o k d) w = .value () w' ∧ Defined w w' o k r := by
  have define := Object.define_eq_validateAndApply h k d
  split
  · next refused =>
    rw [refused] at define
    obtain ⟨f, hf, define⟩ := define
    exact ⟨f, hf, Run.change_of_error (f := (·.define k d)) define⟩
  · next r accepted =>
    rw [accepted] at define
    obtain ⟨p, rfl, define⟩ := define
    exact ⟨_, Run.change_of_ok (f := (·.define k d)) define,
      .put (contains_of_validateAndApply accepted) h p⟩

/-- A first definition by a value alone: what is not named is false. -/
theorem perform_define_onlyValue :
    let w : World Unit Unit :=
      { World.boot (.initial id) () with heap := ⟨#[Object.make .ordinary none]⟩ }
    let k := Key.text "k"
    (w.heap.get ⟨0⟩).elements? = none ∧
      ∃ w', perform (fun _ _ => Run.exhausted) 0 (.define ⟨0⟩ k (.onlyValue .null)) w =
          .value () w' ∧
        Defined w w' ⟨0⟩ k fun
          | .value => some .null
          | .writable | .enumerable | .configurable => some (.boolean false)
          | .get | .set => none := by
  intro w k
  have bare : (w.heap.get ⟨0⟩).elements? = none := rfl
  have absent : (w.heap.get ⟨0⟩).getOwn k = none := Table.find?_empty k
  have accepted := perform_define_eq_validateAndApply (fun _ _ => Run.exhausted) 0 w ⟨0⟩ k
    (.onlyValue .null) bare
  rw [absent] at accepted
  obtain ⟨w', defined, left⟩ := accepted
  refine ⟨bare, w', defined, ?_⟩
  have record : (Descriptor.onlyValue .null).record.created = fun
      | .value => some .null
      | .writable | .enumerable | .configurable => some (.boolean false)
      | .get | .set => none := by
    funext f
    cases f <;> rfl
  exact record ▸ left

end Prototypal
