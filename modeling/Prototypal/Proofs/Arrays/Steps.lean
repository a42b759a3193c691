import Mathlib.Logic.Relation
import Prototypal.Proofs.Layout
import Prototypal.Proofs.Machine

/-!
# How arrays change

A step of the heap leaves the elements of an array as they are, puts one in, takes one out, or sets
the length.  So everything that runs is a chain of such changes.
-/

namespace Prototypal

variable {κ σ α : Type}

/-! ## Lengths -/

/-- The value stands for the length of an array: it is a number, and numerically equal to the
length. -/
def Value.Measures (v : Value) (n : Nat) : Prop :=
  n ≤ Number.maxLength ∧ ∃ x, v = .number x ∧ x.numericEq (.ofNat n) = true

theorem Number.numericEq_ofNat_iff {x : Number} {n : Nat} :
    x.numericEq (.ofNat n) = true ↔ x.toRat? = some (n : Rat) := by
  cases x <;> simp [numericEq, unsignedZero, ofNat, toRat?]

theorem Number.length?_eq_some_iff {x : Number} {n : Nat} :
    x.length? = some n ↔ n ≤ maxLength ∧ x.numericEq (.ofNat n) = true := by
  rw [numericEq_ofNat_iff]
  constructor
  · intro h
    obtain ⟨q, hq, h⟩ := Option.bind_eq_some_iff.1 h
    split at h
    · next whole =>
      cases h
      have same : q = (q.num.toNat : Rat) :=
        Rat.ext (by rw [Rat.num_natCast, Int.toNat_of_nonneg whole.2.1])
          (by rw [Rat.den_natCast, whole.1])
      exact ⟨whole.2.2, same ▸ hq⟩
    · cases h
  · rintro ⟨bound, equal⟩
    rw [← length?_ofNat bound]
    simp only [length?, equal]
    rfl

theorem Value.measures_iff {v : Value} {n : Nat} :
    v.number?.bind Number.length? = some n ↔ v.Measures n := by
  unfold Measures
  cases v <;> simp [Value.number?, Number.length?_eq_some_iff]

/-! ## One step -/

namespace Heap

variable {h h' : Heap κ} {o : ObjectId} {e e' : Elements}

/-- What a step from `h` to `h'` may make of the elements of an array, and by which change of the
array. -/
inductive Rewrites (h h' : Heap κ) (o : ObjectId) (e : Elements) : Elements → Prop
  | same : Rewrites h h' o e e
  | define {i : Nat} {d : Descriptor} (v : Value) (room : i + 1 ≤ Number.maxLength)
      (he : (h.get o).define (.ofIndex i) d = .ok (h'.get o)) : Rewrites h h' o e (e.put i v)
  | push {n : Nat} {v : Value} (room : e.length + 1 ≤ Number.maxLength)
      (he : (h.get o).push v = .ok (n, h'.get o)) : Rewrites h h' o e (e.put e.length v)
  | delete {i : Nat} (he : (h.get o).delete (.ofIndex i) = .ok (h'.get o)) :
      Rewrites h h' o e (e.erase i)
  | resize {n : Nat} {d : Descriptor} {v : Value} (value : d.value = some v) (length : v.Measures n)
      (he : (h.get o).define .length d = .ok (h'.get o)) : Rewrites h h' o e (e.resize n)

/-- Only a definition of the length makes an array shorter. -/
theorem Rewrites.defines_length (r : Rewrites h h' o e e') (shorter : e'.length < e.length) :
    ∃ d v, d.value = some v ∧ v.Measures e'.length ∧
      (h.get o).define .length d = .ok (h'.get o) := by
  cases r with
  | same => exact absurd shorter (Nat.lt_irrefl _)
  | define => exact absurd shorter (Nat.not_lt.2 (Nat.le_max_left ..))
  | push => exact absurd shorter (Nat.not_lt.2 (Nat.le_max_left ..))
  | delete => exact absurd shorter (Nat.lt_irrefl _)
  | resize value length he => exact ⟨_, _, value, length, he⟩

theorem contains_of_array (ho : (h.get o).kind = .array e) : h.contains o = true :=
  contains_of_ne_inert fun inert => by
    rw [inert] at ho
    cases ho

/-- Arrays stay arrays, and their elements change in these ways only. -/
def RewritesArrays (h h' : Heap κ) : Prop :=
  ∀ o e, (h.get o).kind = .array e → ∃ e', (h'.get o).kind = .array e' ∧ Rewrites h h' o e e'

theorem rewrites_define {k : Key} {d : Descriptor} {object : Object κ}
    (ho : (h.get o).kind = .array e) (he : (h.get o).define k d = .ok object)
    (get : h'.get o = object) : ∃ e', (h'.get o).kind = .array e' ∧ Rewrites h h' o e e' := by
  cases place : (h.get o).place k with
  | element elements i =>
      obtain ⟨kind, hi⟩ := Object.of_place_eq_element place
      obtain ⟨rfl, bound⟩ := Key.index?_eq_some_iff.1 hi
      cases ho.symm.trans kind
      have defined := he
      simp only [Object.define, place, Object.defineElement] at defined
      obtain ⟨new, hn, rfl⟩ := except_map_eq_ok_iff.1 defined
      split at hn
      · cases hn
      · split at hn
        · cases hn
        · cases hn
          have room : i + 1 ≤ Number.maxLength :=
            Nat.succ_le_of_lt (Nat.lt_of_le_of_lt bound (by decide))
          exact ⟨_, by rw [get], .define _ room (get ▸ he)⟩
  | length elements =>
      obtain ⟨kind, rfl⟩ := Object.of_place_eq_length place
      cases ho.symm.trans kind
      have defined := he
      simp only [Object.define, place, Object.defineLength] at defined
      obtain ⟨new, hn, rfl⟩ := except_map_eq_ok_iff.1 defined
      split at hn
      · cases hn
        exact ⟨_, by rw [get], .same⟩
      · next v value =>
        split at hn
        · next n length =>
          cases hn
          exact ⟨_, by rw [get], .resize value (Value.measures_iff.1 length) (get ▸ he)⟩
        · cases hn
  | entry =>
      rcases Object.define_cases he with ⟨_, _, _, entry, _⟩ | ⟨_, _, _, rfl⟩ | ⟨_, _, _, rfl⟩
      · exact absurd place entry
      · exact ⟨e, by rw [get]; exact ho, .same⟩
      · exact ⟨e, by rw [get]; exact ho, .same⟩

theorem rewrites_delete {k : Key} {object : Object κ} (ho : (h.get o).kind = .array e)
    (he : (h.get o).delete k = .ok object) (get : h'.get o = object) :
    ∃ e', (h'.get o).kind = .array e' ∧ Rewrites h h' o e e' := by
  cases place : (h.get o).place k with
  | element elements i =>
      obtain ⟨kind, hi⟩ := Object.of_place_eq_element place
      obtain ⟨rfl, -⟩ := Key.index?_eq_some_iff.1 hi
      cases ho.symm.trans kind
      have deleted := he
      simp only [Object.delete, place] at deleted
      cases deleted
      exact ⟨_, by rw [get], .delete (by rw [get]; exact he)⟩
  | length elements =>
      simp only [Object.delete, place] at he
      cases he
  | entry =>
      simp only [Object.delete, place] at he
      have same : object.kind = (h.get o).kind := by
        split at he
        · split at he <;> cases he
          rfl
        · cases he
          rfl
      exact ⟨e, by rw [get, same, ho], .same⟩

theorem rewrites_push {v : Value} {n : Nat} {object : Object κ} (fits : e.Fits)
    (ho : (h.get o).kind = .array e) (he : (h.get o).push v = .ok (n, object))
    (get : h'.get o = object) : ∃ e', (h'.get o).kind = .array e' ∧ Rewrites h h' o e e' := by
  have pushed := he
  simp only [Object.push, ho] at pushed
  split at pushed
  · cases pushed
  · next room =>
    cases pushed
    exact ⟨_, by rw [get], .push (Nat.lt_of_le_of_ne fits.length room) (by rw [get]; exact he)⟩

/-- Every step of the heap is such a change. -/
theorem Step.rewritesArrays {Defines : ObjectId → Key → Descriptor → Prop} (l : h.LaidOut)
    (s : Step Defines h h') : RewritesArrays h h' := by
  intro o e ho
  have contained := contains_of_array ho
  have other {q : ObjectId} {object : Object κ} (hq : o ≠ q) :
      ∃ e', ((h.set q object).get o).kind = .array e' ∧ Rewrites h (h.set q object) o e e' :=
    ⟨e, by rw [get_set_of_ne h object hq, ho], .same⟩
  cases s with
  | @define q k d object _ he =>
      by_cases hq : o = q
      · subst hq
        exact rewrites_define ho he (get_set_self object contained)
      · exact other hq
  | @delete q k object he =>
      by_cases hq : o = q
      · subst hq
        exact rewrites_delete ho he (get_set_self object contained)
      · exact other hq
  | @push q v n object he =>
      by_cases hq : o = q
      · subst hq
        exact rewrites_push ((l o).fits ho) ho he (get_set_self object contained)
      · exact other hq
  | @preventExtensions q =>
      by_cases hq : o = q
      · subst hq
        exact ⟨e, by rw [get_set_self _ contained, ho], .same⟩
      · exact other hq
  | @setPrototype q prototype =>
      by_cases hq : o = q
      · subst hq
        exact ⟨e, by rw [Heap.setPrototype, get_set_self _ contained, ho], .same⟩
      · exact other hq
  | @allocate object =>
      exact ⟨e, by rw [get_allocate_of_contains object contained, ho], .same⟩

/-! ## Whole runs -/

/-- A heap that comes from another one by such changes. -/
structure Follows (h₀ h : Heap κ) : Prop where
  laidOut : h.LaidOut
  chain : Relation.ReflTransGen RewritesArrays h₀ h

theorem Follows.step {Defines : ObjectId → Key → Descriptor → Prop} {h₀ : Heap κ}
    (f : h₀.Follows h) (s : Step Defines h h') : h₀.Follows h' :=
  ⟨f.laidOut.step s, f.chain.tail (s.rewritesArrays f.laidOut)⟩

end Heap

/-- Whatever is run, arrays change in these ways only, one step after the other. -/
theorem perform_rewritesArrays (client : Client κ σ) (m n : Nat) (r : Request κ α)
    {w : World κ σ} (l : w.heap.LaidOut) :
    ∀ w' ∈ (perform (execute client m) n r w).world?,
      Relation.ReflTransGen Heap.RewritesArrays w.heap w'.heap := by
  intro w' hw'
  have kept := (perform_keeps (fun f s => f.step s) client m n r) w
    (⟨l, .refl⟩ : w.heap.Follows w.heap)
  exact (kept.world? w' hw').chain

end Prototypal
