import Prototypal.Proofs.Blindness.Runs
import Prototypal.Proofs.Index

/-!
# Reserved texts

The access layer cannot tell graphs apart that differ in properties under texts with the shape of a
storage key, and does nothing to such properties.
-/

namespace Prototypal

variable {κ σ α : Type}

/-! ## Reserved keys -/

theorem StorageKey.toList_of_isReserved {text : String} (h : isReserved text = true) :
    ∃ rest, text.toList = '_' :: rest := by
  cases hp : "__$".toList.isPrefixOf text.toList with
  | true =>
      obtain ⟨rest, hr⟩ := List.isPrefixOf_iff_prefix.1 hp
      exact ⟨'_' :: '$' :: rest, hr.symm⟩
  | false =>
      have other : after? "__$" text.toList = none := by rw [after?, hp]; rfl
      unfold isReserved at h
      rw [other] at h
      cases h

theorem Key.hideable_isReserved : Hideable Key.isReserved := by
  intro k hk
  match k with
  | .text s =>
      obtain ⟨rest, hs⟩ := StorageKey.toList_of_isReserved hk
      have mark : '_' ∈ s.toList := hs ▸ List.mem_cons_self
      refine ⟨index?_eq_none_of_unnumbered (.foreign mark (by decide)), fun hl => ?_⟩
      cases hl
      simp at hs
  | .name n => cases hk

/-! ## The access layer -/

/-- Leaving out what is hidden first does not change which texts are not reserved. -/
theorem filter_names_eq (keys : List Key) :
    ((keys.filterMap Key.text?).filter fun s => !StorageKey.isReserved s) =
      (keys.filter fun k => !k.isReserved).filterMap Key.text? := by
  induction keys with
  | nil => rfl
  | cons k keys ih =>
      match k with
      | .text s =>
          cases hs : StorageKey.isReserved s <;> simp [Key.isReserved, Key.text?, hs, ih]
      | .name n =>
          rw [List.filterMap_cons_none rfl, ih, List.filter_cons_of_pos rfl,
            List.filterMap_cons_none rfl]

/-- A request to the access layer is blind to reserved texts if the user code is that it calls. -/
theorem blindAt_perform {exec : Exec κ σ} {v : World κ σ} {r : Request κ α}
    (hr : r.isAccess = true) (hc : r.CallsBlindly Key.isReserved exec v) (n : Nat) :
    (perform exec n r).BlindAt Key.isReserved v := by
  have hh := Key.hideable_isReserved
  cases r with
  | accessGet => exact blindAt_accessGet id hc
  | accessSet => exact blindAt_accessSet hh id hc
  | accessDelete => exact blindAt_accessDelete hh id
  | accessDefine => exact blindAt_accessDefine hh id _
  | computedGet owner key =>
      exact blindAt_trapped (·.elementGet) rfl hc.1 (fun _ _ h => h) fun v' h =>
        blindAt_accessGet id (hc.2 v' h)
  | computedSet owner key x =>
      exact blindAt_trapped (·.elementSet) rfl hc.1
        (fun _ _ h => .bind (.bind h fun _ _ _ => .pure _) fun _ _ _ => .pure x) fun v' h =>
        .bind (blindAt_accessSet hh id (hc.2 v' h)) fun _ _ _ => .pure x
  | computedDelete owner key =>
      exact blindAt_trapped (·.elementDelete) rfl hc
        (fun _ _ h => .bind h fun answer _ _ => .pure answer.isTruthy) fun v' h =>
        blindAt_accessDelete hh id
  | _ => cases hr

/-- An answer of the access layer is the same in alike worlds. -/
theorem answer_eq_of_alike {v w : World κ σ} (h : v.Alike Key.isReserved w) {q : Query α}
    (hq : q.isAccess = true) : q.answer v = q.answer w := by
  have has (owner : Value) (k : Key) :
      Access.has v.heap owner k = Access.has w.heap owner k := by
    unfold Access.has
    cases hk : k.isReserved with
    | true => rfl
    | false => simp only [h.heap.has hk]
  cases q with
  | has owner k => exact has owner k
  | hasOwn owner k =>
      simp only [Query.answer, Access.hasOwn]
      cases hk : k.isReserved with
      | true => rfl
      | false => simp only [fun o => (h.heap.get o).getOwn hk]
  | descriptor owner k =>
      simp only [Query.answer, Access.descriptor?]
      split
      · rfl
      · next hk => simp only [h.heap.find (Bool.eq_false_iff.2 hk)]
  | names owner =>
      simp only [Query.answer, Access.names]
      split
      · next o =>
        rw [Object.ownNames, Object.ownNames, filter_names_eq, filter_names_eq,
          (h.heap.get o).ownKeys]
      · rfl
  | hasComputed owner key =>
      simp only [Query.answer, ComputedAccess.has, h.heap.key, has]
  | _ => cases hq

/-- Reserved texts do not interfere.  Where graphs are equal but for properties under reserved
texts, every request to the access layer has the same end in both, in graphs that are equal but for
such properties, and makes, changes and removes no such property in either; and every question to it
has the same answer.  The user code that the request calls is taken to be so, too. -/
theorem perform_noninterference {v w : World κ σ} (h : v.Alike Key.isReserved w) :
    (∀ (exec : Exec κ σ) (n : Nat) {α : Type} (r : Request κ α), r.isAccess = true →
      r.CallsBlindly Key.isReserved exec v →
      (perform exec n r v).Agree (fun v' w' => v'.Alike Key.isReserved w' ∧
        v.heap.Untouched Key.isReserved v'.heap ∧ w.heap.Untouched Key.isReserved w'.heap)
        (perform exec n r w)) ∧
    ∀ {α : Type} (q : Query α), q.isAccess = true → q.answer v = q.answer w :=
  ⟨fun _ n _ _ hr hc => blindAt_perform hr hc n w h, fun _ hq => answer_eq_of_alike h hq⟩

/-- A getter is called whether or not its object has a property under a reserved text. -/
theorem perform_noninterference_getter :
    let getter : Object Unit := .make (.function "g" (.client ())) none
    let bare : Table := Table.empty.put (.text "k") ⟨.accessor (some ⟨1⟩) none, true, true⟩
    let forged : Table := bare.put (.text "__$1$2$__") (.hidden .null)
    let world (table : Table) : World Unit Unit :=
      { World.boot (.initial id) () with
        heap := ⟨#[{ Object.make .ordinary none with table }, getter]⟩ }
    let exec : Exec Unit Unit := fun _ _ => pure .null
    let r : Request Unit Value := .accessGet (.object ⟨0⟩) (.text "k")
    (world forged).Alike Key.isReserved (world bare) ∧
      (perform exec 0 r (world forged)).Agree (fun v' w' => v'.Alike Key.isReserved w' ∧
        (world forged).heap.Untouched Key.isReserved v'.heap ∧
        (world bare).heap.Untouched Key.isReserved w'.heap) (perform exec 0 r (world bare)) := by
  intro getter bare forged world exec r
  have reserved : Key.isReserved (.text "__$1$2$__") = true := by decide
  have tables : ({ Object.make .ordinary none with table := forged } : Object Unit).Alike
      Key.isReserved { Object.make .ordinary none with table := bare } := by
    refine ⟨rfl, rfl, rfl, fun {k} hk => Table.find?_put_of_ne _ _ ?_, ?_⟩
    · rintro rfl
      cases reserved.symm.trans hk
    · have absent : bare.find? (.text "__$1$2$__") = none := by
        rw [Table.find?_put_of_ne _ _ (by decide), Table.find?_empty]
      change (forged.keys.filter _) = bare.keys.filter _
      rw [Table.keys_put_of_absent _ absent, List.filter_append, List.filter_cons_of_neg,
        List.filter_nil, List.append_nil]
      simp [reserved]
  have alike : (world forged).Alike Key.isReserved (world bare) := by
    refine ⟨⟨rfl, fun o => ?_⟩, rfl, rfl, rfl, rfl, rfl⟩
    match o with
    | ⟨0⟩ => exact tables
    | ⟨1⟩ => exact .refl getter
    | ⟨i + 2⟩ => exact .refl .inert
  refine ⟨alike, (perform_noninterference alike).1 exec 0 r rfl ?_⟩
  exact fun _ _ _ _ _ _ => blindAt_call fun _ _ => .pure _

end Prototypal
