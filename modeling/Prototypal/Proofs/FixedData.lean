import Prototypal.Proofs.FixedAccessor
import Prototypal.Proofs.Reached

/-!
# Fixed values

A value that is neither writable nor configurable stays as it is, whatever is asked for: every
definition that such a property admits names only what it already is.
-/

namespace Prototypal

variable {κ σ : Type} {o : ObjectId} {k : Key} {v : Value} {enumerable : Bool}

/-- Elements can be configured and the length of an array can be written. -/
theorem Object.hasEntry_of_fixedData {object : Object κ}
    (h : object.getOwn k = some (.fixedData v false enumerable)) :
    object.HasEntry k (.fixedData v false enumerable) := by
  unfold Object.getOwn at h
  split at h
  · obtain ⟨u, -, same⟩ := Option.map_eq_some_iff.1 h
    cases congrArg Property.configurable same
  · cases congrArg Property.slot (Option.some.inj h)
  · exact ⟨‹_›, h⟩

theorem Heap.Step.fixedData {Defines : ObjectId → Key → Descriptor → Prop} {h h' : Heap κ}
    (s : Step Defines h h') (hp : (h.get o).HasEntry k (.fixedData v false enumerable)) :
    (h'.get o).HasEntry k (.fixedData v false enumerable) := by
  rcases s.hasEntry hp rfl with hp | ⟨d, -, admitted, hp⟩
  · exact hp
  · exact Property.merged_fixedData_of_not_writable admitted ▸ hp

/-- A value that is neither writable nor configurable is the same, and just as visible, in every
world that comes later, whatever clients do until then. -/
theorem World.LeadsTo.keeps_fixedData {w w' : World κ σ} (later : w.LeadsTo w')
    (h : (w.heap.get o).getOwn k = some (.fixedData v false enumerable)) :
    (w'.heap.get o).getOwn k = some (.fixedData v false enumerable) := by
  have lasts := later.heap (Q := fun h => (h.get o).HasEntry k (.fixedData v false enumerable))
    (Object.hasEntry_of_fixedData h) fun hp s => s.fixedData hp
  exact lasts.getOwn

/-- What is not a number can be stored anew in its own place.  A definition of both forms, a
deletion and an assignment through another object are refused. -/
theorem World.LeadsTo.keeps_fixedData_nan :
    let k := Key.text "k"
    let object : Object Unit :=
      { Object.make .ordinary none with
        table := Table.empty.put k (.fixedData (.number .nan) false true) }
    let w : World Unit Nat :=
      { World.boot (.initial id) 0 with heap := ⟨#[object, .make .ordinary none]⟩ }
    let counting (r : Request Unit Unit) (p : Program Unit Nat) : Program Unit Nat :=
      .ask r fun answer => .act (fun n => ((), if answer.isOk then n else n + 1)) fun _ => p
    let p : Program Unit Nat :=
      counting (.define ⟨0⟩ k (.onlyValue (.number .nan))) <|
      counting (.define ⟨0⟩ k { value := some .null, getter := some .undefined }) <|
      counting (.delete ⟨0⟩ k) <|
      counting (.set ⟨1⟩ k .null (.object ⟨0⟩)) <| .done (.ok .null)
    (w.heap.get ⟨0⟩).getOwn k = some (.fixedData (.number .nan) false true) ∧
      ∃ v ∈ (p.watch (fun _ _ => .done (.ok .null)) 1 w.watched).world?,
        w.LeadsTo v.unwatched ∧ v.unwatched.client = 3 ∧
          (v.unwatched.heap.get ⟨0⟩).getOwn k = some (.fixedData (.number .nan) false true) := by
  intro k object w counting p
  have present : (w.heap.get ⟨0⟩).getOwn k = some (.fixedData (.number .nan) false true) :=
    Table.find?_put_self ..
  have ends : (p.watch (fun _ _ => .done (.ok .null)) 1 w.watched).world?.map (·.client.1) =
      some 3 := by decide +kernel
  obtain ⟨v, hv, refused⟩ := Option.map_eq_some_iff.1 ends
  have later : w.LeadsTo v.unwatched :=
    ⟨_, _, _, p, w, v, hv, w, _, (List.sublist_append_right ..).cons_cons _, rfl, rfl⟩
  exact ⟨present, v, hv, later, refused, later.keeps_fixedData present⟩

end Prototypal
