import Prototypal.Proofs.Blindness.Runs

/-!
# Private names

Graphs that differ in properties under private names cannot be told apart through texts, and nothing
happens to such properties.
-/

namespace Prototypal

variable {κ σ α : Type}

/-! ## Requests and questions with texts -/

/-- Requests that name properties by texts only. -/
def Request.isTextual : Request κ α → Bool
  | .get _ k _ | .set _ k _ _ | .define _ k _ | .delete _ k
  | .accessGet _ k | .accessSet _ k _ | .accessDelete _ k | .accessDefine _ k _ => !k.isName
  | .spread _ => true
  | _ => false

/-- Questions that name properties by texts only. -/
def Query.isTextual : Query α → Bool
  | .getOwn _ k | .find _ k | .has _ k | .hasOwn _ k | .descriptor _ k => !k.isName
  | .elements _ | .length _ | .ownNames _ | .enumerableNames _ | .names _ => true
  | _ => false

namespace Spread

/-- The user code that reading the next `n` elements calls is blind. -/
def ReadsBlindly (hidden : Key → Bool) (exec : Exec κ σ) (source : Value) :
    Nat → Nat → World κ σ → Prop
  | 0, _, _ => True
  | n + 1, i, v =>
    Access.ReadsBlindly hidden exec source (.ofIndex i) v ∧
      ∀ x v', Access.get exec source (.ofIndex i) v = .value x v' →
        ReadsBlindly hidden exec source n (i + 1) v'

/-- The user code that an item calls is blind. -/
def ExpandsBlindly (hidden : Key → Bool) (exec : Exec κ σ) (v : World κ σ) : SpreadItem → Prop
  | .spread (.object o) =>
    Access.ReadsBlindly hidden exec (.object o) .length v ∧
      ∀ x v', Access.get exec (.object o) .length v = .value x v' →
        ReadsBlindly hidden exec (.object o) x.count 0 v'
  | _ => True

/-- The user code that a list of items calls is blind. -/
def CallsBlindly (hidden : Key → Bool) (exec : Exec κ σ) : List SpreadItem → World κ σ → Prop
  | [], _ => True
  | item :: items, v =>
    ExpandsBlindly hidden exec v item ∧
      ∀ xs v', expand exec item v = .value xs v' → CallsBlindly hidden exec items v'

end Spread

/-- The user code that a request calls, as a getter or a setter, is blind. -/
def Request.InvokesBlindly (hidden : Key → Bool) (exec : Exec κ σ) (v : World κ σ) :
    Request κ α → Prop
  | .get o k receiver => ∀ getter setter,
    v.heap.findSlot o k = some (.accessor (some getter) setter) →
      (Prototypal.call exec getter receiver []).BlindAt hidden v
  | .set o k x receiver => ∀ getter setter,
    v.heap.findSlot o k = some (.accessor getter (some setter)) →
      (Prototypal.call exec setter receiver [x]).BlindAt hidden v
  | .accessGet owner k => Access.ReadsBlindly hidden exec owner k v
  | .accessSet owner k x => Access.WritesBlindly hidden exec owner k x v
  | .spread items => Spread.CallsBlindly hidden exec items v
  | _ => True

/-! ## Spread -/

namespace Spread

variable {hidden : Key → Bool} {exec : Exec κ σ} {source : Value} {n i : Nat} {v : World κ σ}

theorem ReadsBlindly.of_forall
    (h : ∀ k w, Access.ReadsBlindly hidden exec source k w) :
    ReadsBlindly hidden exec source n i v := by
  induction n generalizing i v with
  | zero => trivial
  | succ n ih => exact ⟨h _ v, fun _ _ _ => ih⟩

variable (plain : ∀ k, (k = .length ∨ ∃ i, k = .ofIndex i) → hidden k = false)
include plain

theorem blindAt_elementsFrom (read : List Value) (h : ReadsBlindly hidden exec source n i v) :
    (elementsFrom exec source n i read).BlindAt hidden v := by
  -- Each read begins in the world that the one before it left.
  induction n generalizing i v read with
  | zero => exact .pure _
  | succ n ih =>
      have first := blindAt_accessGet (fun _ => plain _ (.inr ⟨i, rfl⟩)) h.1
      exact first.bind fun x v' hx => ih (x :: read) (h.2 x v' hx)

theorem blindAt_expand {item : SpreadItem} (h : ExpandsBlindly hidden exec v item) :
    (expand exec item).BlindAt hidden v := by
  unfold expand
  split
  · exact .pure _
  · exact .pure _
  · exact .pure _
  · next o =>
    have length := blindAt_accessGet (fun _ => plain _ (.inl rfl)) h.1
    exact length.bind fun x v' hx => blindAt_elementsFrom plain [] (h.2 x v' hx)
  · exact .fail _

theorem blindAt_arguments {items : List SpreadItem} (h : CallsBlindly hidden exec items v) :
    (arguments exec items).BlindAt hidden v := by
  have all : (items.mapM (expand exec)).BlindAt hidden v := by
    induction items generalizing v with
    | nil => exact .pure _
    | cons item items ih =>
        rw [List.mapM_cons]
        refine (blindAt_expand plain h.1).bind fun xs v' hxs => ?_
        exact (ih (h.2 xs v' hxs)).bind fun _ _ _ => .pure _
  exact all.bind fun _ _ _ => .pure _

end Spread

/-! ## Names are not seen -/

theorem Key.hideable_isName : Hideable Key.isName := by
  intro k hk
  cases k with
  | text => cases hk
  | name => exact ⟨rfl, nofun⟩

theorem filterMap_text_filter (keys : List Key) :
    (keys.filter fun k => !k.isName).filterMap Key.text? = keys.filterMap Key.text? := by
  induction keys with
  | nil => rfl
  | cons k keys ih =>
      cases k with
      | text =>
          rw [List.filter_cons_of_pos rfl]
          exact congrArg (_ :: ·) ih
      | name => rw [List.filter_cons_of_neg Bool.false_ne_true, ih, List.filterMap_cons_none rfl]

namespace Object

variable {o o' : Object κ}

theorem Alike.ownNames (h : o.Alike Key.isName o') : o.ownNames = o'.ownNames := by
  rw [Object.ownNames, Object.ownNames, ← filterMap_text_filter, h.ownKeys, filterMap_text_filter]

theorem Alike.enumerableNames (h : o.Alike Key.isName o') :
    o.enumerableNames = o'.enumerableNames := by
  have visibleFirst (o : Object κ) : o.enumerableNames =
      ((o.ownKeys.filter fun k => !k.isName).filter fun k =>
        (o.getOwn k).any (·.enumerable)).filterMap Key.text? := by
    rw [Object.enumerableNames, ← filterMap_text_filter, List.filter_filter, List.filter_filter]
    simp only [Bool.and_comm]
  rw [visibleFirst o, visibleFirst o', h.ownKeys]
  congr 1
  refine List.filter_congr fun k hk => ?_
  rw [h.getOwn (by simpa using (List.mem_filter.1 hk).2)]

end Object

theorem blindAt_perform_textual {exec : Exec κ σ} {v : World κ σ} {r : Request κ α}
    (hr : r.isTextual = true) (hc : r.InvokesBlindly Key.isName exec v) (n : Nat) :
    (perform exec n r).BlindAt Key.isName v := by
  have hh := Key.hideable_isName
  have text {k : Key} (hk : (!k.isName) = true) : k.isName = false := by simpa using hk
  cases r with
  | get => exact blindAt_get (text hr) hc
  | set => exact blindAt_set hh (text hr) hc
  | define => exact .change (Object.blindly_define hh (text hr) _)
  | delete => exact .change (Object.blindly_delete hh (text hr))
  | accessGet => exact blindAt_accessGet (fun _ => text hr) hc
  | accessSet => exact blindAt_accessSet hh (fun _ => text hr) hc
  | accessDelete => exact blindAt_accessDelete hh fun _ => text hr
  | accessDefine => exact blindAt_accessDefine hh (fun _ => text hr) _
  | spread =>
      refine Spread.blindAt_arguments ?_ hc
      rintro k (rfl | ⟨i, rfl⟩) <;> rfl
  | _ => cases hr

theorem answer_eq_of_textual {v w : World κ σ} (h : v.Alike Key.isName w) {q : Query α}
    (hq : q.isTextual = true) : q.answer v = q.answer w := by
  have text {k : Key} (hk : (!k.isName) = true) : k.isName = false := by simpa using hk
  cases q with
  | getOwn o => exact (h.heap.get o).getOwn (text hq)
  | find o => exact h.heap.find (text hq) o
  | has => simp only [Query.answer, Access.has, h.heap.has (text hq)]
  | hasOwn =>
      simp only [Query.answer, Access.hasOwn, fun o => (h.heap.get o).getOwn (text hq)]
  | descriptor => simp only [Query.answer, Access.descriptor?, h.heap.find (text hq)]
  | names => simp only [Query.answer, Access.names, fun o => (h.heap.get o).ownNames]
  | elements o => simp only [Query.answer, Object.elements?, (h.heap.get o).kind]
  | length o => simp only [Query.answer, Object.elements?, (h.heap.get o).kind]
  | ownNames o => exact (h.heap.get o).ownNames
  | enumerableNames o => exact (h.heap.get o).enumerableNames
  | _ => cases hq

/-- Private names are not seen through texts.  Where graphs are equal but for properties under
private names, every request that names properties by texts has the same end in both, in graphs that
are equal but for such properties, and makes, changes and removes no such property in either; and
every such question has the same answer.  The user code that the request calls is taken to be so,
too. -/
theorem perform_textual_noninterference {v w : World κ σ} (h : v.Alike Key.isName w) :
    (∀ (exec : Exec κ σ) (n : Nat) {α : Type} (r : Request κ α), r.isTextual = true →
      r.InvokesBlindly Key.isName exec v →
      (perform exec n r v).Agree (fun v' w' => v'.Alike Key.isName w' ∧
        v.heap.Untouched Key.isName v'.heap ∧ w.heap.Untouched Key.isName w'.heap)
        (perform exec n r w)) ∧
    ∀ {α : Type} (q : Query α), q.isTextual = true → q.answer v = q.answer w :=
  ⟨fun _ n _ _ hr hc => blindAt_perform_textual hr hc n w h,
    fun _ hq => answer_eq_of_textual h hq⟩

/-- Spreading an object calls its getter whether or not it has a property under a name. -/
theorem perform_textual_noninterference_spread :
    let getter : Object Unit := .make (.function "g" (.client ())) none
    let table : Table := (Table.empty.put .length (.data (.number (.ofNat 1)))).put (.ofIndex 0)
      ⟨.accessor (some ⟨1⟩) none, true, true⟩
    let bare : Object Unit := { Object.make .ordinary none with table }
    let slotted : Object Unit :=
      { bare with table := table.put (.name ⟨0, "slot", "__$0$1$__"⟩) (.hidden .null) }
    let world (object : Object Unit) : World Unit Unit :=
      { World.boot (.initial id) () with heap := ⟨#[object, getter]⟩ }
    let exec : Exec Unit Unit := fun _ _ => pure .null
    let r : Request Unit (List Value) := .spread [.spread (.object ⟨0⟩)]
    (world slotted).Alike Key.isName (world bare) ∧
      (perform exec 0 r (world slotted)).Agree (fun v' w' => v'.Alike Key.isName w' ∧
        (world slotted).heap.Untouched Key.isName v'.heap ∧
        (world bare).heap.Untouched Key.isName w'.heap) (perform exec 0 r (world bare)) := by
  intro getter table bare slotted world exec r
  have alike : (world slotted).Alike Key.isName (world bare) := by
    refine ⟨⟨rfl, fun o => ?_⟩, rfl, rfl, rfl, rfl, rfl⟩
    match o with
    | ⟨0⟩ => exact .putHidden rfl bare _
    | ⟨1⟩ => exact .refl getter
    | ⟨i + 2⟩ => exact .refl .inert
  have reads (k : Key) (v : World Unit Unit) :
      Access.ReadsBlindly Key.isName exec (.object ⟨0⟩) k v :=
    fun _ _ _ _ _ _ => blindAt_call fun _ _ => .pure _
  refine ⟨alike, (perform_textual_noninterference alike).1 exec 0 r rfl ⟨⟨reads _ _, ?_⟩, ?_⟩⟩
  · exact fun _ _ _ => .of_forall reads
  · exact fun _ _ _ => trivial

end Prototypal
