import Mathlib.Data.List.Perm.Subperm
import Mathlib.Logic.Relation
import Mathlib.Order.WellFounded
import Prototypal.Proofs.Creation.Steps
import Prototypal.Proofs.NotExtensible
import Prototypal.Proofs.Reached

/-!
# Chains that end

No step of the heap closes a circle of prototypes.  So every walk up the prototypes ends, without a
bound on its rounds, and what lookup and the search for circles do within a bound is what such a
walk does.
-/

namespace Prototypal

variable {κ σ α β : Type}

namespace Heap

/-- Following prototypes leads from `o` to `q`, which may be `o` itself. -/
def Ascends (h : Heap κ) : ObjectId → ObjectId → Prop :=
  Relation.ReflTransGen fun below above => h.Inherits above below

/-- A walk up the prototypes: it stops at the first object that `look` makes something of, and with
nothing where no prototype is left.  Nothing bounds its rounds. -/
inductive Walk (h : Heap κ) (look : ObjectId → Option β) : Option ObjectId → Option β → Prop
  | top : Walk h look none none
  | stop {o : ObjectId} {b : β} (found : look o = some b) : Walk h look (some o) (some b)
  | up {o : ObjectId} {r : Option β} (passed : look o = none)
      (rest : Walk h look (h.get o).prototype r) : Walk h look (some o) r

/-- The prototypes form no circle, and each is an object that was made. -/
structure Grounded (h : Heap κ) : Prop where
  acyclic : h.Acyclic
  made {o p : ObjectId} : (h.get o).prototype = some p → h.contains p = true

variable {h h' : Heap κ} {o p q : ObjectId}

theorem Walk.unique {look : ObjectId → Option β} {start : Option ObjectId}
    {r r' : Option β} (w : h.Walk look start r) (w' : h.Walk look start r') : r = r' := by
  induction w with
  | top =>
      cases w'
      rfl
  | stop found =>
      cases w' with
      | stop found' => exact found.symm.trans found'
      | up passed => cases found.symm.trans passed
  | up passed rest ih =>
      cases w' with
      | stop found => cases passed.symm.trans found
      | up _ rest' => exact ih rest'

theorem ascends_of_mem {n : Nat} (hq : q ∈ h.chainUpTo n o) : h.Ascends o q := by
  induction n generalizing o with
  | zero => cases hq
  | succ n ih =>
      rw [chainUpTo] at hq
      rcases List.mem_cons.1 hq with rfl | hq
      · exact .refl
      · split at hq
        · cases hq
        · next p hp => exact .head hp (ih hq)

theorem chainUpTo_succ {n : Nat} (short : (h.chainUpTo (n + 1) o).length ≤ n) :
    h.chainUpTo (n + 1) o = h.chainUpTo n o := by
  induction n generalizing o with
  | zero => cases short
  | succ n ih =>
      rw [chainUpTo, chainUpTo] at *
      cases hp : (h.get o).prototype with
      | none => rfl
      | some p =>
          rw [hp] at short
          exact congrArg (o :: ·) (ih (Nat.le_of_succ_le_succ short))

/-! ## Other prototypes -/

/-- An object may get any prototype above which it is not found. -/
theorem Acyclic.relink (acyclic : h.Acyclic)
    (same : ∀ q, q ≠ o → (h'.get q).prototype = (h.get q).prototype)
    (apart : ∀ p, (h'.get o).prototype = some p → ¬ h.Ascends p o) : h'.Acyclic := by
  -- From where `o` is not reached the chain is the old one.
  have away (q : ObjectId) (hq : ¬ h.Ascends q o) : Acc h'.Inherits q := by
    induction q using acyclic.induction with
    | _ q ih =>
      refine Acc.intro _ fun above (inherits : (h'.get q).prototype = some above) => ?_
      have ne : q ≠ o := by
        rintro rfl
        exact hq .refl
      rw [same q ne] at inherits
      exact ih above inherits fun ascends => hq (.head inherits ascends)
  have self : Acc h'.Inherits o :=
    Acc.intro _ fun above inherits => away above (apart above inherits)
  refine ⟨fun q => ?_⟩
  induction q using acyclic.induction with
  | _ q ih =>
    by_cases hq : q = o
    · exact hq ▸ self
    · refine Acc.intro _ fun above (inherits : (h'.get q).prototype = some above) => ?_
      rw [same q hq] at inherits
      exact ih above inherits

theorem grounded_empty : (empty : Heap κ).Grounded := by
  have bare (o : ObjectId) : ((empty : Heap κ).get o).prototype = none := by
    rw [get_of_not_contains (by simp [contains, empty, size])]
    rfl
  refine ⟨⟨fun o => Acc.intro _ fun above inherits => ?_⟩, fun {o p} hp => ?_⟩
  · cases (bare o).symm.trans inherits
  · cases (bare o).symm.trans hp

namespace Grounded

variable (g : h.Grounded)
include g

theorem contains_of_ascends (hp : h.contains p = true) (ascends : h.Ascends p q) :
    h.contains q = true := by
  induction ascends with
  | refl => exact hp
  | tail _ inherits _ => exact g.made inherits

theorem set {object : Object κ} (ho : object.prototype = (h.get o).prototype) :
    (h.set o object).Grounded := by
  have same (q : ObjectId) : ((h.set o object).get q).prototype = (h.get q).prototype :=
    get_set_congr (·.prototype) object ho q
  refine ⟨?_, fun {q p} hp => ?_⟩
  · have inherits : (h.set o object).Inherits = h.Inherits := by
      funext above below
      simp only [Inherits, same]
    rw [Acyclic, inherits]
    exact g.acyclic
  · rw [contains_set]
    exact g.made ((same q).symm.trans hp)

/-! ### Chains are as long as they are -/

theorem nodup_chainUpTo (n : Nat) (o : ObjectId) : (h.chainUpTo n o).Nodup := by
  have circle {o : ObjectId} : ¬ Relation.TransGen h.Inherits o o :=
    (g.acyclic.transGen).irrefl.irrefl o
  induction n generalizing o with
  | zero => exact .nil
  | succ n ih =>
      rw [chainUpTo]
      split
      · exact .cons (by simp) .nil
      · next p hp =>
        refine List.nodup_cons.2 ⟨fun ho => circle (o := o) ?_, ih p⟩
        exact .tail' (Relation.reflTransGen_swap.1 (ascends_of_mem ho)) hp

theorem length_chainUpTo_le (n : Nat) (o : ObjectId) : (h.chainUpTo n o).length ≤ h.size + 1 := by
  have among : h.chainUpTo n o ⊆ o :: (List.range h.size).map ObjectId.mk := by
    intro q hq
    rcases (ascends_of_mem hq).cases_tail with rfl | ⟨r, -, inherits⟩
    · exact List.mem_cons_self
    · have below := contains_iff.1 (g.made inherits)
      exact List.mem_cons_of_mem _ (List.mem_map.2 ⟨q.index, List.mem_range.2 below, rfl⟩)
  simpa using (List.subperm_of_subset (g.nodup_chainUpTo n o) among).length_le

theorem chain_eq (o : ObjectId) : h.chain o = o :: (h.get o).prototype.elim [] h.chain := by
  have short := g.length_chainUpTo_le (h.size + 2) o
  rw [chain, ← chainUpTo_succ short, chainUpTo]
  cases (h.get o).prototype <;> rfl

theorem mem_chain_iff : q ∈ h.chain o ↔ h.Ascends o q := by
  refine ⟨ascends_of_mem, fun ascends => ?_⟩
  induction ascends using Relation.ReflTransGen.head_induction_on with
  | refl =>
      rw [g.chain_eq]
      exact List.mem_cons_self
  | head inherits _ ih =>
      rw [g.chain_eq, inherits]
      exact List.mem_cons_of_mem _ ih

theorem walk_iff {look : ObjectId → Option β} {start : Option ObjectId} {r : Option β} :
    h.Walk look start r ↔ (start.elim [] h.chain).findSome? look = r := by
  -- Nothing bounds the rounds of the walk, so the induction is along the chain itself.
  have ends (start : Option ObjectId) :
      h.Walk look start ((start.elim [] h.chain).findSome? look) := by
    cases start with
    | none => exact .top
    | some o =>
        induction o using g.acyclic.induction with
        | _ o ih =>
          rw [Option.elim_some, g.chain_eq, List.findSome?_cons]
          cases found : look o with
          | some b => exact .stop found
          | none =>
              refine .up found ?_
              cases hp : (h.get o).prototype with
              | none => exact .top
              | some p => exact ih p hp
  exact ⟨fun w => (ends start).unique w, fun hr => hr ▸ ends start⟩

theorem walk_closesCircle_iff {prototype : Option ObjectId} {r : Option Unit} :
    h.Walk (fun q => if q = o then some () else none) prototype r ↔
      (if h.closesCircle o prototype then some () else none) = r := by
  have found (l : List ObjectId) : (l.findSome? fun q => if q = o then some () else none) =
      if o ∈ l then some () else none := by
    induction l with
    | nil => rfl
    | cons q l ih =>
        rw [List.findSome?_cons, ih]
        by_cases hq : q = o
        · simp [hq]
        · simp [hq, Ne.symm hq]
  have member : o ∈ prototype.elim [] h.chain ↔ h.closesCircle o prototype = true := by
    cases prototype <;> simp [closesCircle]
  rw [g.walk_iff, found]
  simp only [member]

theorem closesCircle_iff {prototype : Option ObjectId} :
    h.closesCircle o prototype = true ↔ ∃ p, prototype = some p ∧ h.Ascends p o := by
  simp [closesCircle, Option.any_eq_true, g.mem_chain_iff]

/-- The nearest property is that of the object itself, or else that of its prototype. -/
theorem find_eq (o : ObjectId) (k : Key) :
    h.find o k = ((h.get o).getOwn k).or ((h.get o).prototype.bind (h.find · k)) := by
  rw [find_eq_findSome?, g.chain_eq, List.findSome?_cons]
  cases (h.get o).getOwn k with
  | some property => rfl
  | none =>
      cases (h.get o).prototype with
      | none => rfl
      | some p => exact (h.find_eq_findSome? p k).symm

/-! ### Steps -/

theorem setPrototype {prototype : Option ObjectId} (hc : h.closesCircle o prototype = false) :
    (h.setPrototype o prototype).Grounded := by
  cases held : h.contains o with
  | false =>
      rw [Heap.setPrototype, set_of_not_contains _ held]
      exact g
  | true =>
      have self : ((h.setPrototype o prototype).get o).prototype = prototype.filter h.contains :=
        congrArg Object.prototype (get_set_self _ held)
      have others {q : ObjectId} (hq : q ≠ o) :
          ((h.setPrototype o prototype).get q).prototype = (h.get q).prototype :=
        congrArg Object.prototype (get_set_of_ne h _ hq)
      refine ⟨g.acyclic.relink (fun q hq => others hq) fun p hp ascends => ?_, fun {q p} hp => ?_⟩
      · rw [self] at hp
        have circle := g.closesCircle_iff.2 ⟨p, (Option.filter_eq_some_iff.1 hp).1, ascends⟩
        cases hc.symm.trans circle
      · rw [Heap.setPrototype, contains_set]
        by_cases hq : q = o
        · subst hq
          rw [self] at hp
          exact (Option.filter_eq_some_iff.1 hp).2
        · exact g.made ((others hq).symm.trans hp)

theorem allocate (object : Object κ) : (h.allocate object).2.Grounded := by
  have self : ((h.allocate object).2.get h.next).prototype = object.prototype.filter h.contains :=
    congrArg Object.prototype (get_allocate_next h object)
  have others {q : ObjectId} (hq : q ≠ h.next) :
      ((h.allocate object).2.get q).prototype = (h.get q).prototype :=
    congrArg Object.prototype (get_allocate_of_ne h object hq)
  refine ⟨g.acyclic.relink (fun q hq => others hq) fun p hp ascends => ?_, fun {q p} hp => ?_⟩
  · rw [self] at hp
    -- What is above an object that was made was made, and the new one was not.
    have old := g.contains_of_ascends (Option.filter_eq_some_iff.1 hp).2 ascends
    exact Nat.lt_irrefl _ (contains_iff.1 old)
  · refine contains_allocate object ?_
    by_cases hq : q = h.next
    · subst hq
      rw [self] at hp
      exact (Option.filter_eq_some_iff.1 hp).2
    · exact g.made ((others hq).symm.trans hp)

theorem step {Defines : ObjectId → Key → Descriptor → Prop} (s : Step Defines h h') :
    h'.Grounded := by
  cases s with
  | define _ he =>
      refine g.set ?_
      rcases Object.define_cases he with ⟨_, _, _, _, rfl⟩ | ⟨_, _, _, rfl⟩ | ⟨_, _, _, rfl⟩ <;> rfl
  | delete he =>
      refine g.set ?_
      rcases Object.delete_cases he with ⟨_, _, _, rfl⟩ | ⟨_, _, _, rfl⟩ | rfl <;> rfl
  | push he =>
      obtain ⟨_, _, _, rfl⟩ := Object.push_cases he
      exact g.set rfl
  | preventExtensions => exact g.set rfl
  | setPrototype hc => exact g.setPrototype hc
  | allocate => exact g.allocate _

theorem steps {Defines : ObjectId → Key → Descriptor → Prop}
    (s : Relation.ReflTransGen (Step Defines) h h') : h'.Grounded := by
  induction s with
  | refl => exact g
  | tail _ s ih => exact ih.step s

end Grounded

end Heap

/-! ## Reached worlds -/

theorem World.Reached.grounded {w : World κ σ} (hw : w.Reached) : w.heap.Grounded :=
  hw.heap Heap.grounded_empty fun g s => g.step s

/-- In every reached world, and in the midst of whatever is run from there, chains end: following
prototypes leads to an object without one.  The walk by which a property is looked up ends with what
`find` gives, and only with that, and so does the one by which a circle is looked for with what
`closesCircle` gives.  A prototype is refused, and nothing changes, if following prototypes leads
from it to the object; otherwise it becomes the prototype of the object, and nothing else changes.
-/
theorem World.Reached.chains_end {w w' : World κ σ} (hw : w.Reached)
    (steps : Relation.ReflTransGen (Heap.Step fun _ _ _ => True) w.heap w'.heap) :
    (∀ (client : Client κ σ) (m n : Nat) {α : Type} (r : Request κ α),
      ∀ v ∈ (perform (execute client m) n r w').world?,
        Relation.ReflTransGen (Heap.Step fun _ _ _ => True) w.heap v.heap) ∧
    (∀ o, ∃ top, w'.heap.Ascends o top ∧ (w'.heap.get top).prototype = none) ∧
    (∀ o k r, w'.heap.Walk (fun q => (w'.heap.get q).getOwn k) (some o) r ↔
      w'.heap.find o k = r) ∧
    (∀ o prototype r, w'.heap.Walk (fun q => if q = o then some () else none) prototype r ↔
      (if w'.heap.closesCircle o prototype then some () else none) = r) ∧
    ∀ (exec : Exec κ σ) (n : Nat) o prototype, w'.heap.contains o = true →
      (∀ p, prototype = some p → w'.heap.contains p = true) →
      ((∃ p, prototype = some p ∧ w'.heap.Ascends p o) →
        (perform exec n (.setPrototype o prototype)).Refuses w' w') ∧
      ((¬ ∃ p, prototype = some p ∧ w'.heap.Ascends p o) →
        perform exec n (.setPrototype o prototype) w' = .value ()
          { w' with heap := w'.heap.set o { w'.heap.get o with prototype } }) := by
  have g : w'.heap.Grounded := hw.grounded.steps steps
  refine ⟨fun client m n _ r => ?_, fun o => ?_, fun o k r => ?_, fun o prototype r => ?_,
    fun exec n o prototype ho hp => ⟨fun circle => ?_, fun apart => ?_⟩⟩
  · have keeps := perform_keeps (P := fun h =>
      Relation.ReflTransGen (Heap.Step fun _ _ _ => True) w.heap h) (fun s s' => s.tail s')
      client m n r
    exact (keeps w' steps).world?
  · induction o using g.acyclic.induction with
    | _ o ih =>
      cases hp : (w'.heap.get o).prototype with
      | none => exact ⟨o, .refl, hp⟩
      | some p =>
          obtain ⟨top, ascends, root⟩ := ih p hp
          exact ⟨top, .head hp ascends, root⟩
  · rw [g.walk_iff, Heap.find_eq_findSome?, Option.elim_some]
  · exact g.walk_closesCircle_iff
  · exact ⟨.cyclicPrototype, rfl, if_pos (g.closesCircle_iff.2 circle)⟩
  · have whole : prototype.filter w'.heap.contains = prototype := by
      cases prototype with
      | none => rfl
      | some p => exact Option.filter_some_pos (hp p rfl)
    refine (if_neg (mt g.closesCircle_iff.1 apart)).trans ?_
    rw [Heap.setPrototype, whole]

/-- A prototype that would close a circle may be given once the chain is cut. -/
theorem World.Reached.chains_end_cut :
    ∃ w w' : World Unit Unit, w.Reached ∧
      w' = { w with heap := w.heap.set ⟨2⟩ { w.heap.get ⟨2⟩ with prototype := none } } ∧
      (perform (fun _ _ => Run.exhausted) 0 (.setPrototype ⟨0⟩ (some ⟨2⟩))).Refuses w w ∧
      perform (fun _ _ => Run.exhausted) 0 (.setPrototype ⟨0⟩ (some ⟨2⟩)) w' = .value ()
        { w' with heap := w'.heap.set ⟨0⟩ { w'.heap.get ⟨0⟩ with prototype := some ⟨2⟩ } } := by
  obtain ⟨w, reached, facts⟩ := World.exists_reached (fun _ _ => .done (.ok .null)) 0
    (.ask (.newObject none) fun root =>
      .ask (.newObject root.toOption) fun middle =>
      .ask (.newObject middle.toOption) fun _ => .ask .newKey fun _ => .done (.ok .null))
    (.initial id) () (fun w : World Unit Unit => (w.heap.size, (w.heap.get ⟨1⟩).prototype,
      (w.heap.get ⟨2⟩).prototype))
    (show _ = some (3, some ⟨0⟩, some ⟨1⟩) by decide +kernel)
  simp only [Prod.mk.injEq] at facts
  obtain ⟨size, middle, leaf⟩ := facts
  have held {i : Nat} (hi : i < 3) : w.heap.contains ⟨i⟩ = true := Heap.contains_iff.2 (size ▸ hi)
  obtain ⟨-, -, -, -, linked⟩ := reached.chains_end .refl
  have circle : w.heap.Ascends ⟨2⟩ ⟨0⟩ := .head leaf (.single middle)
  have refused := (linked (fun _ _ => Run.exhausted) 0 ⟨0⟩ (some ⟨2⟩) (held (by decide))
    (by rintro p ⟨⟩; exact held (by decide))).1 ⟨_, rfl, circle⟩
  let w' : World Unit Unit :=
    { w with heap := w.heap.set ⟨2⟩ { w.heap.get ⟨2⟩ with prototype := none } }
  have free : w.heap.closesCircle ⟨2⟩ none = false := rfl
  have cut : Relation.ReflTransGen (Heap.Step fun _ _ _ => True) w.heap w'.heap :=
    .single (.setPrototype free)
  obtain ⟨-, -, -, -, linked⟩ := reached.chains_end cut
  have accepted := (linked (fun _ _ => Run.exhausted) 0 ⟨0⟩ (some ⟨2⟩)
    ((Heap.contains_set ..).trans (held (by decide)))
    (by rintro p ⟨⟩; exact (Heap.contains_set ..).trans (held (by decide)))).2 ?_
  · exact ⟨w, w', reached, rfl, refused, accepted⟩
  · rintro ⟨p, ⟨⟩, ascends⟩
    have root : (w'.heap.get ⟨2⟩).prototype = none :=
      congrArg Object.prototype (Heap.get_set_self _ (held (by decide)))
    rcases ascends.cases_head with same | ⟨q, inherits, -⟩
    · exact absurd same (by decide)
    · cases root.symm.trans inherits

end Prototypal
