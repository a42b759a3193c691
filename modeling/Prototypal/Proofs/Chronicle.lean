import Mathlib.Data.List.Induction
import Prototypal.Proofs.Layout

/-!
# When keys were defined

A chronicle of a heap lists the definitions and deletions that led to it.  The keys of every table
stand in the order of the times at which, by the chronicle, they were first defined since they were
last deleted.
-/

namespace Prototypal

variable {κ : Type}

namespace Heap

/-! ## Times -/

/-- A definition under a key of an object, or its deletion. -/
structure Change where
  object : ObjectId
  key : Key
  removes : Bool

def Change.defined (o : ObjectId) (k : Key) : Change := ⟨o, k, false⟩

def Change.deleted (o : ObjectId) (k : Key) : Change := ⟨o, k, true⟩

/-- How many changes there were before a key was first defined, counted from its last deletion.  The
latest change comes first. -/
def since (o : ObjectId) (k : Key) : List Change → Option Nat
  | [] => none
  | c :: past =>
    if c.object = o ∧ c.key = k then
      if c.removes then none else some ((since o k past).getD past.length)
    else since o k past

variable {o : ObjectId} {j k : Key} {past : List Change} {holds : Key → Prop} {keys : List Key}

theorem since_defined_self :
    since o k (.defined o k :: past) = some ((since o k past).getD past.length) := by
  simp [since, Change.defined]

theorem since_deleted_self : since o k (.deleted o k :: past) = none := by
  simp [since, Change.deleted]

theorem since_cons_of_ne {c : Change} (h : c.object = o → c.key ≠ k) :
    since o k (c :: past) = since o k past :=
  if_neg fun same => h same.1 same.2

theorem since_lt {n : Nat} (h : since o k past = some n) : n < past.length := by
  induction past with
  | nil => cases h
  | cons c past ih =>
      rw [since] at h
      split at h
      · split at h
        · cases h
        · cases hs : since o k past with
          | none =>
              rw [hs] at h
              cases h
              simp
          | some m =>
              rw [hs] at h ih
              cases h
              exact Nat.lt_succ_of_lt (ih rfl)
      · exact Nat.lt_succ_of_lt (ih h)

/-- Keys stand in the order of their times, and no other key of those in question has one. -/
structure Dated (o : ObjectId) (holds : Key → Prop) (keys : List Key) (past : List Change) :
    Prop where
  sound {k : Key} : k ∈ keys → holds k
  mem {k : Key} : holds k → (k ∈ keys ↔ (since o k past).isSome)
  order : keys.Pairwise fun j k => ∀ m ∈ since o j past, ∀ n ∈ since o k past, m < n

namespace Dated

theorem congr {holds' : Key → Prop} (h : Dated o holds keys past)
    (hn : ∀ k, holds' k ↔ holds k) : Dated o holds' keys past where
  sound hk := (hn _).2 (h.sound hk)
  mem hk := h.mem ((hn _).1 hk)
  order := h.order

/-- The times of the keys in question are what they were. -/
theorem of_since_eq {past' : List Change} (h : Dated o holds keys past)
    (same : ∀ {k}, holds k → since o k past' = since o k past) : Dated o holds keys past' where
  sound := h.sound
  mem hk := by rw [same hk, h.mem hk]
  order := h.order.imp_of_mem fun hj hk less => by
    rwa [same (h.sound hj), same (h.sound hk)]

/-- A change of another object or of another key does not matter. -/
theorem pass (h : Dated o holds keys past) {c : Change} (hc : c.object = o → ¬ holds c.key) :
    Dated o holds keys (c :: past) :=
  h.of_since_eq fun hk => since_cons_of_ne fun ho same => hc ho (same ▸ hk)

theorem others {changes : List Change} (h : Dated o holds keys past)
    (hc : ∀ c ∈ changes, c.object ≠ o) : Dated o holds keys (changes ++ past) := by
  induction changes with
  | nil => exact h
  | cons c changes ih =>
      obtain ⟨hc, rest⟩ := List.forall_mem_cons.1 hc
      exact (ih rest).pass fun same => absurd same hc

/-- A new key comes last, and one that is there keeps its time. -/
theorem define (h : Dated o holds keys past) (hk : holds k) :
    Dated o holds (if k ∈ keys then keys else keys ++ [k]) (.defined o k :: past) := by
  have other {j : Key} (hj : j ≠ k) :
      since o j (.defined o k :: past) = since o j past :=
    since_cons_of_ne fun _ same => hj same.symm
  split
  · next present =>
    obtain ⟨n, hn⟩ := Option.isSome_iff_exists.1 ((h.mem hk).1 present)
    refine h.of_since_eq fun {j} _ => ?_
    by_cases hj : j = k
    · rw [hj, since_defined_self, hn, Option.getD_some]
    · exact other hj
  · next absent =>
    have fresh : since o k past = none := by
      rw [← Option.not_isSome_iff_eq_none, ← h.mem hk]
      exact absent
    have now : since o k (.defined o k :: past) = some past.length := by
      rw [since_defined_self, fresh, Option.getD_none]
    have ne {j : Key} (hj : j ∈ keys) : j ≠ k := fun same => absent (same ▸ hj)
    refine ⟨fun {j} hj => ?_, fun {j} hj => ?_, ?_⟩
    · rcases List.mem_append.1 hj with hj | hj
      · exact h.sound hj
      · exact List.mem_singleton.1 hj ▸ hk
    · by_cases same : j = k
      · simp [same, now]
      · rw [other same, ← h.mem hj]
        simp [same]
    · refine List.pairwise_append.2 ⟨h.order.imp_of_mem fun hi hj less => ?_,
        List.pairwise_singleton .., fun j hj i hi m hm n hn => ?_⟩
      · rwa [other (ne hi), other (ne hj)]
      · cases List.mem_singleton.1 hi
        rw [other (ne hj)] at hm
        rw [now] at hn
        cases hn
        exact since_lt hm

theorem delete (h : Dated o holds keys past) :
    Dated o holds (keys.filter (· ≠ k)) (.deleted o k :: past) := by
  have other {j : Key} (hj : j ≠ k) :
      since o j (.deleted o k :: past) = since o j past :=
    since_cons_of_ne fun _ same => hj same.symm
  have left {j : Key} (hj : j ∈ keys.filter (· ≠ k)) : j ∈ keys ∧ j ≠ k := by
    simpa using List.mem_filter.1 hj
  refine ⟨fun hj => h.sound (left hj).1, fun {j} hj => ?_, ?_⟩
  · by_cases same : j = k
    · simp [same, since_deleted_self]
    · rw [other same, ← h.mem hj]
      simp [same]
  · refine (h.order.filter _).imp_of_mem fun hi hj less => ?_
    rwa [other (left hi).2, other (left hj).2]

/-- Keys that are defined one after the other. -/
theorem ofList {keys : List Key} (nodup : keys.Nodup) (hk : ∀ k ∈ keys, holds k)
    (h : Dated o holds [] past) :
    Dated o holds keys ((keys.map (Change.defined o)).reverse ++ past) := by
  induction keys using List.reverseRecOn with
  | nil => exact h
  | append_singleton keys k ih =>
      obtain ⟨nodup, -, apart⟩ := List.nodup_append.1 nodup
      have absent : k ∉ keys := fun hm => apart k hm k (List.mem_singleton_self k) rfl
      have last := (ih nodup fun j hj => hk j (List.mem_append_left _ hj)).define
        (hk k (by simp))
      rw [if_neg absent] at last
      simpa using last

end Dated

end Heap

/-! ## What a change does to the keys of a table -/

namespace Object

variable {o object : Object κ} {k : Key}

theorem place_eq_entry_congr {o' : Object κ}
    (h : o'.kind = o.kind ∨ ∃ old new, o.kind = .array old ∧ o'.kind = .array new) (k : Key) :
    o'.place k = .entry ↔ o.place k = .entry := by
  rw [place_eq_entry_iff, place_eq_entry_iff]
  rcases h with same | ⟨old, new, ho, hn⟩
  · rw [same]
  · simp [ho, hn]

theorem keys_define {d : Descriptor} (h : o.define k d = .ok object) :
    (∀ j, object.place j = .entry ↔ o.place j = .entry) ∧
    (o.place k = .entry →
      object.table.keys = if k ∈ o.table.keys then o.table.keys else o.table.keys ++ [k]) ∧
    (o.place k ≠ .entry → object.table = o.table) := by
  rcases define_cases h with ⟨old, new, ho, named, rfl⟩ | ⟨named, absent, -, rfl⟩ | ⟨p, hp, -, rfl⟩
  · exact ⟨place_eq_entry_congr (.inr ⟨old, new, ho, rfl⟩), fun hk => absurd hk named, fun _ => rfl⟩
  · refine ⟨fun _ => Iff.rfl, fun _ => ?_, fun hk => absurd named hk⟩
    rw [if_neg (by simp [Table.mem_keys_iff, absent])]
    exact Table.keys_put_of_absent _ absent
  · refine ⟨fun _ => Iff.rfl, fun _ => ?_, fun hk => absurd hp.1 hk⟩
    have present : (o.table.find? k).isSome := Option.isSome_iff_exists.2 ⟨p, hp.2⟩
    rw [if_pos (Table.mem_keys_iff.2 present)]
    exact Table.keys_put_of_present _ present

theorem keys_delete (h : o.delete k = .ok object) :
    (∀ j, object.place j = .entry ↔ o.place j = .entry) ∧
    (o.place k = .entry → object.table.keys = o.table.keys.filter (· ≠ k)) ∧
    (o.place k ≠ .entry → object.table = o.table) := by
  unfold delete at h
  split at h
  · next elements i place =>
    cases h
    obtain ⟨kind, -⟩ := of_place_eq_element place
    refine ⟨place_eq_entry_congr (.inr ⟨_, _, kind, rfl⟩), fun hk => ?_, fun _ => rfl⟩
    cases place.symm.trans hk
  · cases h
  · next place =>
    split at h
    · split at h
      · cases h
        exact ⟨fun _ => Iff.rfl, fun _ => Table.keys_erase .., fun hk => absurd place hk⟩
      · cases h
    · next absent =>
      cases h
      refine ⟨fun _ => Iff.rfl, fun _ => (List.filter_eq_self.2 fun j hj => ?_).symm, fun _ => rfl⟩
      have : j ≠ k := by
        rintro rfl
        rw [Table.mem_keys_iff, absent] at hj
        cases hj
      simpa using this

end Object

/-! ## Chronicles -/

namespace Heap

/-- A single change of the heap, and the definitions and deletions in it.  The properties that an
object is made with count as defined one after the other. -/
inductive Makes : Heap κ → List Change → Heap κ → Prop
  | define {h : Heap κ} {o : ObjectId} {k : Key} {d : Descriptor} {object : Object κ}
      (he : (h.get o).define k d = .ok object) : Makes h [.defined o k] (h.set o object)
  | delete {h : Heap κ} {o : ObjectId} {k : Key} {object : Object κ}
      (he : (h.get o).delete k = .ok object) : Makes h [.deleted o k] (h.set o object)
  | push {h : Heap κ} {o : ObjectId} {v : Value} {n : Nat} {object : Object κ}
      (he : (h.get o).push v = .ok (n, object)) : Makes h [] (h.set o object)
  | preventExtensions {h : Heap κ} {o : ObjectId} :
      Makes h [] (h.set o { h.get o with extensible := false })
  | setPrototype {h : Heap κ} {o : ObjectId} {prototype : Option ObjectId}
      (hc : h.closesCircle o prototype = false) : Makes h [] (h.setPrototype o prototype)
  | allocate {h : Heap κ} {object : Object κ} (ho : object.Made) :
      Makes h (object.table.keys.map (Change.defined h.next)).reverse (h.allocate object).2

/-- The definitions and deletions that led from the empty heap to this one, the latest first. -/
inductive Chronicle : Heap κ → List Change → Prop
  | empty : Chronicle .empty []
  | next {h h' : Heap κ} {changes past : List Change} (c : Chronicle h past)
      (m : Makes h changes h') : Chronicle h' (changes ++ past)

variable {h h' : Heap κ} {o : ObjectId} {changes past : List Change}

theorem Step.makes {Defines : ObjectId → Key → Descriptor → Prop} (s : Step Defines h h') :
    ∃ changes, Makes h changes h' := by
  cases s with
  | define _ he => exact ⟨_, .define he⟩
  | delete he => exact ⟨_, .delete he⟩
  | push he => exact ⟨_, .push he⟩
  | preventExtensions => exact ⟨_, .preventExtensions⟩
  | setPrototype hc => exact ⟨_, .setPrototype hc⟩
  | allocate ho => exact ⟨_, .allocate ho⟩

theorem Makes.step (m : Makes h changes h') : Step (fun _ _ _ => True) h h' := by
  cases m with
  | define he => exact .define trivial he
  | delete he => exact .delete he
  | push he => exact .push he
  | preventExtensions => exact .preventExtensions
  | setPrototype hc => exact .setPrototype hc
  | allocate ho => exact .allocate ho

theorem Chronicle.laidOut (c : Chronicle h past) : h.LaidOut := by
  induction c with
  | empty => exact laidOut_empty
  | next _ m ih => exact ih.step m.step

/-- The keys in the table of an object have the times of the chronicle. -/
def DatedAt (h : Heap κ) (past : List Change) (o : ObjectId) : Prop :=
  Dated o (fun k => (h.get o).place k = .entry) (h.get o).table.keys past

/-- Keys keep their times when a table stays as it is. -/
theorem DatedAt.set (hd : ∀ p, h.DatedAt past p) {object : Object κ}
    (table : object.table = (h.get o).table)
    (place : ∀ k, object.place k = .entry ↔ (h.get o).place k = .entry) (p : ObjectId) :
    (h.set o object).DatedAt past p := by
  unfold DatedAt
  rcases get_set_cases h o p object with same | ⟨rfl, same⟩
  · rw [same]
    exact hd p
  · rw [same, table]
    exact (hd p).congr place

theorem DatedAt.define (hd : ∀ p, h.DatedAt past p) {k : Key} {d : Descriptor} {object : Object κ}
    (he : (h.get o).define k d = .ok object) (p : ObjectId) :
    (h.set o object).DatedAt (.defined o k :: past) p := by
  unfold DatedAt
  by_cases hp : p = o
  · subst hp
    rw [get_set_self object (contains_of_define he)]
    obtain ⟨place, keys, table⟩ := Object.keys_define he
    refine Dated.congr ?_ place
    by_cases hk : (h.get p).place k = .entry
    · rw [keys hk]
      exact Dated.define (hd p) hk
    · rw [table hk]
      exact (hd p).pass fun _ => hk
  · rw [get_set_of_ne h object hp]
    exact (hd p).pass fun same => absurd same.symm hp

theorem DatedAt.delete (hd : ∀ p, h.DatedAt past p) {k : Key} {object : Object κ}
    (he : (h.get o).delete k = .ok object) (p : ObjectId) :
    (h.set o object).DatedAt (.deleted o k :: past) p := by
  obtain ⟨place, keys, table⟩ := Object.keys_delete he
  have changed : Dated o (fun j => object.place j = .entry) object.table.keys
      (.deleted o k :: past) := by
    refine Dated.congr ?_ place
    by_cases hk : (h.get o).place k = .entry
    · rw [keys hk]
      exact Dated.delete (hd o)
    · rw [table hk]
      exact (hd o).pass fun _ => hk
  unfold DatedAt
  by_cases hp : p = o
  · subst hp
    cases held : h.contains p with
    | true =>
        rw [get_set_self object held]
        exact changed
    | false =>
        -- Nothing is stored, and there was nothing to delete.
        have inert := get_of_not_contains held
        rw [inert, Object.delete, Object.place_of_not_array rfl] at he
        cases he
        rw [set_of_not_contains _ held, inert]
        exact changed
  · rw [get_set_of_ne h object hp]
    exact (hd p).pass fun same => absurd same.symm hp

theorem DatedAt.allocate (hd : ∀ p, h.DatedAt past p) {object : Object κ} (ho : object.Made)
    (p : ObjectId) : (h.allocate object).2.DatedAt
      ((object.table.keys.map (Change.defined h.next)).reverse ++ past) p := by
  unfold DatedAt
  by_cases hp : p = h.next
  · subst hp
    have none : Dated h.next (fun _ => True) [] past := by
      have dated := hd h.next
      unfold DatedAt at dated
      rw [get_of_not_contains h.contains_next] at dated
      exact (Table.keys_empty ▸ dated).congr fun k =>
        iff_of_true trivial (Object.place_of_not_array rfl k)
    rw [get_allocate_next]
    have named (k : Key) (hk : k ∈ object.table.keys) : object.place k = .entry :=
      ho.laidOut.place_of_mem_keys hk
    refine .ofList (Table.nodup_keys _) named ⟨fun hk => absurd hk List.not_mem_nil, ?_, .nil⟩
    exact fun _ => none.mem trivial
  · rw [get_allocate_of_ne h object hp]
    refine (hd p).others fun c hc => ?_
    obtain ⟨k, -, rfl⟩ := List.mem_map.1 (List.mem_reverse.1 hc)
    exact Ne.symm hp

theorem Makes.dated (m : Makes h changes h') (hd : ∀ p, h.DatedAt past p) (p : ObjectId) :
    h'.DatedAt (changes ++ past) p := by
  cases m with
  | define he => exact .define hd he p
  | delete he => exact .delete hd he p
  | push he =>
      obtain ⟨old, new, ho, rfl⟩ := Object.push_cases he
      refine .set hd ?_ (fun k => ?_) p
      · rfl
      · exact Object.place_eq_entry_congr (.inr ⟨old, new, ho, rfl⟩) k
  | preventExtensions =>
      refine .set hd ?_ (fun k => ?_) p
      · rfl
      · rfl
  | setPrototype =>
      refine .set hd ?_ (fun k => ?_) p
      · rfl
      · rfl
  | allocate ho => exact .allocate hd ho p

/-- The keys of every table stand in the order of their times. -/
theorem Chronicle.dated (c : Chronicle h past) (o : ObjectId) : h.DatedAt past o := by
  induction c generalizing o with
  | empty =>
      have inert : (Heap.empty : Heap κ).get o = .inert :=
        get_of_not_contains (by simp [contains, Heap.empty, size])
      unfold DatedAt
      rw [inert, show (Object.inert : Object κ).table.keys = [] from Table.keys_empty]
      exact ⟨fun hk => absurd hk List.not_mem_nil, fun _ => by simp [since], .nil⟩
  | next _ m ih => exact m.dated ih o

end Heap

end Prototypal
