import Mathlib.Data.List.Nodup
import Prototypal.Proofs.Chronicle
import Prototypal.Proofs.Reached

/-!
# Listing own properties

The own keys of an object are those under which it has a property, each once: elements by their
index, then the length of an array, then entries by the time of their definition.
-/

namespace Prototypal

variable {κ σ α : Type}

namespace Object

/-- Which of two own keys is listed first, if the entries of the table have the given times. -/
def Precedes (o : Object κ) (since : Key → Option Nat) (j k : Key) : Prop :=
  match o.place j, o.place k with
  | .element _ m, .element _ n => m < n
  | .element _ _, .length _ | .element _ _, .entry | .length _, .entry => True
  | .entry, .entry => ∃ m n, since j = some m ∧ since k = some n ∧ m < n
  | _, _ => False

variable {o : Object κ}

theorem pairwise_ownKeys (h : o.LaidOut) {id : ObjectId} {past : List Heap.Change}
    (dated : Heap.Dated id (fun k => o.place k = .entry) o.table.keys past) :
    o.ownKeys.Pairwise (o.Precedes (Heap.since id · past)) := by
  have entries : o.table.keys.Pairwise (o.Precedes (Heap.since id · past)) := by
    refine dated.order.imp_of_mem fun {j k} hj hk less => ?_
    obtain ⟨m, hm⟩ := Option.isSome_iff_exists.1 ((dated.mem (dated.sound hj)).1 hj)
    obtain ⟨n, hn⟩ := Option.isSome_iff_exists.1 ((dated.mem (dated.sound hk)).1 hk)
    simp only [Precedes, dated.sound hj, dated.sound hk]
    exact ⟨m, n, hm, hn, less m hm n hn⟩
  unfold ownKeys
  split
  · next elements ho =>
    have element {i : Nat} (hi : i ∈ elements.indices) := place_ofIndex ho (h.le_maxIndex ho hi)
    refine List.pairwise_append.2 ⟨List.pairwise_map.2 ?_, List.pairwise_cons.2 ⟨?_, entries⟩, ?_⟩
    · refine elements.pairwise_indices.imp_of_mem fun hi hj less => ?_
      simpa only [Precedes, element hi, element hj] using less
    · intro k hk
      simp only [Precedes, place_length ho, dated.sound hk]
    · intro j hj k hk
      obtain ⟨i, hi, rfl⟩ := List.mem_map.1 hj
      rcases List.mem_cons.1 hk with rfl | hk
      · simp only [Precedes, element hi, place_length ho]
      · simp only [Precedes, element hi, dated.sound hk]
  · exact entries

theorem mem_ownNames_iff {s : String} : s ∈ o.ownNames ↔ .text s ∈ o.ownKeys := by
  unfold ownNames
  rw [List.mem_filterMap]
  constructor
  · rintro ⟨k, hk, text⟩
    cases k <;> cases text
    exact hk
  · exact fun hk => ⟨_, hk, rfl⟩

theorem map_filterMap_text_sublist (keys : List Key) :
    ((keys.filterMap Key.text?).map Key.text).Sublist keys := by
  induction keys with
  | nil => exact .slnil
  | cons k keys ih =>
      cases k with
      | text s => exact ih.cons_cons _
      | name n => exact ih.cons _

end Object

namespace Access

theorem names_sublist (h : Heap κ) (o : ObjectId) :
    ((names h (.object o)).map Key.text).Sublist (h.get o).ownKeys :=
  (List.filter_sublist.map _).trans (Object.map_filterMap_text_sublist _)

theorem mem_names_iff {h : Heap κ} (l : h.LaidOut) {owner : Value} {s : String} :
    s ∈ names h owner ↔ hasOwn h owner (.text s) = true := by
  cases owner with
  | object o =>
      have listed : s ∈ (h.get o).ownNames ↔ ((h.get o).getOwn (.text s)).isSome = true := by
        rw [Object.mem_ownNames_iff, (l o).mem_ownKeys_iff]
      simp [names, hasOwn, listed, Key.isReserved, Value.object?, and_comm]
  | _ => simp [names, hasOwn, Value.object?]

theorem nodup_names {h : Heap κ} (l : h.LaidOut) (owner : Value) : (names h owner).Nodup := by
  cases owner with
  | object o => exact List.Nodup.of_map _ ((l o).nodup_ownKeys.sublist (names_sublist h o))
  | _ => exact .nil

end Access

/-! ## Reached worlds -/

theorem World.Reached.chronicle {w : World κ σ} (hw : w.Reached) :
    ∃ past, w.heap.Chronicle past := by
  refine hw.heap (Q := fun h => ∃ past, h.Chronicle past) ⟨[], .empty⟩ ?_
  rintro h h' ⟨past, c⟩ s
  obtain ⟨changes, m⟩ := s.makes
  exact ⟨_, c.next m⟩

/-- Whatever is run, the chronicle goes on. -/
theorem perform_chronicle (client : Client κ σ) (m n : Nat) (r : Request κ α)
    {past : List Heap.Change} :
    Run.Keeps (fun w => ∃ later, w.heap.Chronicle (later ++ past))
      (perform (execute client m) n r) := by
  refine perform_keeps (P := fun h => ∃ later, h.Chronicle (later ++ past)) ?_ client m n r
  rintro h h' ⟨later, c⟩ s
  obtain ⟨changes, makes⟩ := s.makes
  exact ⟨changes ++ later, List.append_assoc .. ▸ c.next makes⟩

/-- In every reached world, an object lists its own properties: each key once, and exactly those
under which it has one, elements first, then the length of an array, and then the others by the time
of their first definition since they were last deleted.  Access with private names lists, in the
same order, exactly the texts under which it finds an own property.  The times are those of any
chronicle of the heap; there is one, and it goes on whatever is run. -/
theorem World.Reached.lists_own {w : World κ σ} (hw : w.Reached) :
    (∀ o, (w.heap.get o).ownKeys.Nodup ∧
      ∀ k, k ∈ (w.heap.get o).ownKeys ↔ ((w.heap.get o).getOwn k).isSome) ∧
    ((∃ past, w.heap.Chronicle past) ∧ ∀ past, w.heap.Chronicle past →
      (∀ o, (w.heap.get o).ownKeys.Pairwise ((w.heap.get o).Precedes (Heap.since o · past))) ∧
      ∀ (client : Client κ σ) (m n : Nat) {α : Type} (r : Request κ α),
        ∀ w' ∈ (perform (execute client m) n r w).world?,
          ∃ later, w'.heap.Chronicle (later ++ past)) ∧
    ∀ owner, (Access.names w.heap owner).Nodup ∧
      (∀ s, s ∈ Access.names w.heap owner ↔ Access.hasOwn w.heap owner (.text s) = true) ∧
      ∀ o, owner = .object o →
        ((Access.names w.heap owner).map Key.text).Sublist (w.heap.get o).ownKeys := by
  obtain ⟨_, c⟩ := hw.chronicle
  have l := c.laidOut
  refine ⟨fun o => ⟨(l o).nodup_ownKeys, fun k => (l o).mem_ownKeys_iff⟩,
    ⟨hw.chronicle, fun past c => ⟨fun o => ?_, fun client m n _ r => ?_⟩⟩, fun owner => ?_⟩
  · exact Object.pairwise_ownKeys (l o) (c.dated o)
  · exact (perform_chronicle client m n r w ⟨[], c⟩).world?
  · refine ⟨Access.nodup_names l owner, fun s => Access.mem_names_iff l, ?_⟩
    rintro o rfl
    exact Access.names_sublist w.heap o

/-- A key that was deleted and defined again comes after one that was defined in between. -/
theorem World.Reached.lists_own_again :
    ∃ w : World Unit Unit, w.Reached ∧
      Access.names w.heap (.object ⟨0⟩) = ["0", "length", "a", "b"] ∧
      Access.hasOwn w.heap (.object ⟨0⟩) (.text "b") = true ∧
      ∃ past m n, w.heap.Chronicle past ∧ Heap.since ⟨0⟩ (.text "a") past = some m ∧
        Heap.since ⟨0⟩ (.text "b") past = some n ∧ m < n := by
  obtain ⟨w, reached, facts⟩ := World.exists_reached (fun _ _ => .done (.ok .null)) 0
    (.ask (.newArray [.null] none) fun _ =>
      .ask (.define ⟨0⟩ (.text "b") (.data .null)) fun _ =>
      .ask (.define ⟨0⟩ (.text "a") (.data .null)) fun _ =>
      .ask (.delete ⟨0⟩ (.text "b")) fun _ =>
      .ask (.define ⟨0⟩ (.text "b") (.data .null)) fun _ => .ask .newKey fun _ => .done (.ok .null))
    (.initial id) ()
    (fun w : World Unit Unit => ((w.heap.get ⟨0⟩).ownKeys, Access.names w.heap (.object ⟨0⟩)))
    (show _ = some ([.text "0", .length, .text "a", .text "b"], ["0", "length", "a", "b"]) by
      decide +kernel)
  simp only [Prod.mk.injEq] at facts
  obtain ⟨keys, names⟩ := facts
  obtain ⟨-, ⟨⟨past, c⟩, order⟩, access⟩ := reached.lists_own
  have listed := (access (.object ⟨0⟩)).2.1 "b"
  rw [names] at listed
  have entry {s : String} (hi : (Key.text s).index? = none) (hl : Key.text s ≠ .length) :
      (w.heap.get ⟨0⟩).place (.text s) = .entry :=
    Object.place_eq_entry_iff.2 fun _ _ => ⟨hi, hl⟩
  have ordered := (order past c).1 ⟨0⟩
  rw [keys] at ordered
  have pair : [Key.text "a", .text "b"].Sublist [.text "0", .length, .text "a", .text "b"] := by
    decide
  have less := List.pairwise_pair.1 (ordered.sublist pair)
  simp only [Object.Precedes, entry (s := "a") (by decide) (by decide),
    entry (s := "b") (by decide) (by decide)] at less
  obtain ⟨m, n, hm, hn, less⟩ := less
  exact ⟨w, reached, names, listed.1 (by decide), past, m, n, c, hm, hn, less⟩

end Prototypal
